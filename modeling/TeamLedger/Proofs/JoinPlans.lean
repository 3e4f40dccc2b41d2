/-
What the order of joins is good for.

The tables of a query that a chain builds hang together: from the root every
other one is reached over neighbours that are part of the query as well. A step
adds a table next to one that is there already, and a step to another root only
changes where one begins (`Query.Grown.spans`).

Working off the queue then visits every table once, each after the one that it is
joined to (`JoinSet.walk_planned`), and misses none: when the rounds are over, no
visited table has a neighbour left to visit (`JoinSet.walk_closed`). There are as
many rounds as tables, and every round takes one table off the queue, so the
rounds end no sooner than the queue.
-/
import Mathlib.Data.List.Perm.Subperm
import Mathlib.Logic.Relation
import TeamLedger.Query.Plan

set_option autoImplicit false

namespace TeamLedger

namespace Table

theorem mem_all (t : Table) : t ∈ all := Named.mem_all t

theorem nodup_neighbours (t : Table) : t.neighbours.Nodup := by
  cases t <;> decide

theorem mem_neighbours_comm {t u : Table} : u ∈ t.neighbours ↔ t ∈ u.neighbours := by
  rw [← isSome_on?_iff, ← isSome_on?_iff, on?_comm]

theorem ne_of_mem_neighbours {t u : Table} (h : u ∈ t.neighbours) : u ≠ t := by
  rintro rfl
  revert h
  cases u <;> decide

end Table

namespace JoinSet

variable {s : JoinSet} {t u : Table}

/-! ## Tables that hang together -/

/-- Two neighbours that are both in the set. -/
def Adjacent (s : JoinSet) (t u : Table) : Prop :=
  u ∈ t.neighbours ∧ s.contains t = true ∧ s.contains u = true

theorem Adjacent.symm (h : s.Adjacent t u) : s.Adjacent u t :=
  ⟨Table.mem_neighbours_comm.1 h.1, h.2.2, h.2.1⟩

/-- The table is in the set, and every table of the set is reached from it. -/
structure Spans (s : JoinSet) (t : Table) : Prop where
  contains : s.contains t = true
  reaches : ∀ u, s.contains u = true → Relation.ReflTransGen s.Adjacent t u

theorem contains_insert_self (s : JoinSet) (t : Table) (kind : JoinKind) :
    (s.insert t kind).contains t = true := by
  rw [contains_insert, decide_eq_true rfl, Bool.or_true]

theorem contains_insert_of_contains (h : s.contains u = true) (t : Table) (kind : JoinKind) :
    (s.insert t kind).contains u = true := by
  rw [contains_insert, h, Bool.true_or]

theorem insert_of_contains (h : s.contains t = true) (kind : JoinKind) : s.insert t kind = s := by
  unfold insert
  rw [if_pos h]

theorem spans_start (t : Table) (kind : JoinKind) : (empty.insert t kind).Spans t where
  contains := contains_insert_self empty t kind
  reaches u hu := by
    have hempty : empty.contains u = false := by cases u <;> rfl
    rw [contains_insert, hempty, Bool.false_or, decide_eq_true_eq] at hu
    rw [hu]

/-- A table next to one of the set may be added. -/
theorem Spans.insert {r : Table} (h : s.Spans r) (ht : s.contains t = true)
    (hu : u ∈ t.neighbours) (kind : JoinKind) : (s.insert u kind).Spans r where
  contains := contains_insert_of_contains h.contains u kind
  reaches v hv := by
    have adjacent : s.Adjacent ≤ (s.insert u kind).Adjacent := fun a b hab =>
      ⟨hab.1, contains_insert_of_contains hab.2.1 u kind,
        contains_insert_of_contains hab.2.2 u kind⟩
    have mono := Relation.ReflTransGen.mono adjacent r
    rw [contains_insert, Bool.or_eq_true, decide_eq_true_eq] at hv
    rcases hv with hv | rfl
    · exact mono v (h.reaches v hv)
    · exact (mono t (h.reaches t ht)).tail
        ⟨hu, contains_insert_of_contains ht v kind, contains_insert_self s v kind⟩

/-- Where one begins does not matter. -/
theorem Spans.rebase (h : s.Spans t) (hu : s.contains u = true) : s.Spans u where
  contains := hu
  reaches v hv := by
    have symm : Std.Symm s.Adjacent := ⟨fun _ _ => Adjacent.symm⟩
    have back : Relation.ReflTransGen s.Adjacent u t := Std.Symm.symm _ _ (h.reaches u hu)
    exact back.trans (h.reaches v hv)

/-! ## Plans -/

/-- A plan joins tables of the set, each of them new, to neighbours that are placed already. -/
inductive Planned (s : JoinSet) : List Table → List JoinStep → Prop
  | nil (placed : List Table) : Planned s placed []
  | cons {placed : List Table} {step : JoinStep} {plan : List JoinStep}
      (parent : step.parent ∈ placed) (next : step.table ∈ step.parent.neighbours)
      (fresh : step.table ∉ placed) (contains : s.contains step.table = true)
      (kind : step.kind = s.kind step.table)
      (rest : Planned s (placed ++ [step.table]) plan) : Planned s placed (step :: plan)

theorem Planned.contains {placed : List Table} {plan : List JoinStep} (h : s.Planned placed plan) :
    ∀ step ∈ plan, s.contains step.table = true := by
  induction h with
  | nil => simp
  | cons _ _ _ hcontains _ _ ih =>
    intro step hstep
    rcases List.mem_cons.1 hstep with rfl | hstep
    · exact hcontains
    · exact ih step hstep

/-- What is placed is not joined again. -/
theorem Planned.fresh {placed : List Table} {plan : List JoinStep} (h : s.Planned placed plan) :
    ∀ step ∈ plan, step.table ∉ placed := by
  induction h with
  | nil => simp
  | cons _ _ hfresh _ _ _ ih =>
    intro step hstep
    rcases List.mem_cons.1 hstep with rfl | hstep
    · exact hfresh
    · exact fun hmem => ih step hstep (List.mem_append_left _ hmem)

/-- A team is joined to its invoice, so no join starts from a team. -/
theorem Planned.parent_ne {placed : List Table} {plan : List JoinStep} (h : s.Planned placed plan)
    (hteams : ∀ u ∈ placed, u = .fromTeam ∨ u = .toTeam → Table.invoice ∈ placed) :
    ∀ step ∈ plan, step.parent ≠ .fromTeam ∧ step.parent ≠ .toTeam := by
  induction h with
  | nil => simp
  | @cons placed step plan hparent hnext hfresh _ _ _ ih =>
    have hstep : step.parent ≠ .fromTeam ∧ step.parent ≠ .toTeam := by
      refine not_or.1 fun hteam => hfresh ?_
      have htable : step.table = .invoice := by
        rcases hteam with hteam | hteam <;> rw [hteam] at hnext <;>
          exact List.mem_singleton.1 hnext
      rw [htable]
      exact hteams _ hparent hteam
    intro step' hstep'
    rcases List.mem_cons.1 hstep' with rfl | hstep'
    · exact hstep
    refine ih (fun u hu hteam => ?_) step' hstep'
    rcases List.mem_append.1 hu with hu | hu
    · exact List.mem_append_left _ (hteams u hu hteam)
    · rw [List.mem_singleton.1 hu] at hteam
      have hinvoice : step.parent = .invoice := by
        rw [Table.mem_neighbours_comm] at hnext
        rcases hteam with hteam | hteam <;> rw [hteam] at hnext <;>
          exact List.mem_singleton.1 hnext
      exact List.mem_append_left _ (hinvoice ▸ hparent)

theorem mem_unvisited {visited : List Table} :
    u ∈ s.unvisited visited t ↔ u ∈ t.neighbours ∧ s.contains u = true ∧ u ∉ visited := by
  simp [unvisited]

theorem nodup_unvisited (s : JoinSet) (visited : List Table) (t : Table) :
    (s.unvisited visited t).Nodup := t.nodup_neighbours.filter _

/-- Joins of new tables to one that is placed may come before a plan. -/
theorem Planned.append {next visited : List Table} {plan : List JoinStep} (ht : t ∈ visited)
    (hnodup : next.Nodup)
    (hnext : ∀ u ∈ next, u ∈ t.neighbours ∧ s.contains u = true ∧ u ∉ visited)
    (h : s.Planned (visited ++ next) plan) :
    s.Planned visited (next.map (fun u => ⟨t, u, s.kind u⟩) ++ plan) := by
  induction next generalizing visited with
  | nil => simpa using h
  | cons u next ih =>
    obtain ⟨hu, hrest⟩ := List.nodup_cons.1 hnodup
    obtain ⟨hneighbour, hcontains, hfresh⟩ := hnext u List.mem_cons_self
    refine .cons ht hneighbour hfresh hcontains rfl (ih (List.mem_append_left _ ht) hrest ?_ ?_)
    · intro v hv
      obtain ⟨hv₁, hv₂, hv₃⟩ := hnext v (List.mem_cons_of_mem _ hv)
      refine ⟨hv₁, hv₂, fun hmem => ?_⟩
      rcases List.mem_append.1 hmem with hmem | hmem
      · exact hv₃ hmem
      · have heq : v = u := List.mem_singleton.1 hmem
        exact hu (heq ▸ hv)
    · rw [List.append_assoc]
      exact h

/-- Working off a queue joins every new table to one that is placed. -/
theorem walk_planned (n : Nat) {visited queue : List Table} (h : ∀ t ∈ queue, t ∈ visited) :
    s.Planned visited (s.walk n visited queue) := by
  induction n generalizing visited queue with
  | zero => exact .nil visited
  | succ n ih =>
    cases queue with
    | nil => exact .nil visited
    | cons t queue =>
      have ht : t ∈ visited := h t List.mem_cons_self
      refine .append ht (s.nodup_unvisited visited t) (fun u hu => mem_unvisited.1 hu) (ih ?_)
      intro u hu
      rcases List.mem_append.1 hu with hu | hu
      · exact List.mem_append_left _ (h u (List.mem_cons_of_mem _ hu))
      · exact List.mem_append_right _ hu

/-- When the rounds are over, no neighbour of a visited table is left. The tables that are visited
and not in the queue have been worked off, one in each round. -/
theorem walk_closed (n : Nat) {visited queue : List Table} (hnodup : visited.Nodup)
    (hrounds : visited.length + n = Table.all.length + queue.length)
    (hdone : ∀ t ∈ visited, t ∉ queue → ∀ u ∈ t.neighbours, s.contains u = true → u ∈ visited) :
    ∀ t ∈ visited ++ (s.walk n visited queue).map (·.table), ∀ u ∈ t.neighbours,
      s.contains u = true → u ∈ visited ++ (s.walk n visited queue).map (·.table) := by
  induction n generalizing visited queue with
  | zero =>
    have hle : visited.length ≤ Table.all.length :=
      (hnodup.subperm fun t _ => t.mem_all).length_le
    have hqueue : queue = [] := List.eq_nil_of_length_eq_zero (by omega)
    simpa [walk, hqueue] using hdone
  | succ n ih =>
    cases queue with
    | nil => simpa [walk] using hdone
    | cons t queue =>
      have hnew : (visited ++ s.unvisited visited t).Nodup := by
        refine List.nodup_append.2 ⟨hnodup, s.nodup_unvisited visited t, ?_⟩
        rintro u hu _ hv rfl
        exact (mem_unvisited.1 hv).2.2 hu
      have hclosed := @ih (visited ++ s.unvisited visited t) (queue ++ s.unvisited visited t) hnew
        (by simp only [List.length_append, List.length_cons] at *; omega) ?_
      · simpa [walk, Function.comp_def] using hclosed
      · intro u hu hqueue v hv hcontains
        rw [List.mem_append] at hqueue
        have huvisited : u ∈ visited := by
          rcases List.mem_append.1 hu with hu | hu
          · exact hu
          · exact absurd (.inr hu) hqueue
        by_cases hut : u = t
        · subst hut
          by_cases hvisited : v ∈ visited
          · exact List.mem_append_left _ hvisited
          · exact List.mem_append_right _ (mem_unvisited.2 ⟨hv, hcontains, hvisited⟩)
        · refine List.mem_append_left _ (hdone u huvisited (fun hmem => ?_) v hv hcontains)
          rcases List.mem_cons.1 hmem with hmem | hmem
          · exact hut hmem
          · exact hqueue (.inl hmem)

end JoinSet

/-! ## Queries -/

/-- The condition says what it has to mean without a row: a list of statuses to exclude is not
empty. -/
def Filter.Proper : Filter → Prop
  | statusNotIn ss => ss ≠ []
  | _ => True

namespace Query

variable {root : Root} {q : Query root}

/-- What steps make of a query for all rows: conditions on the root or on a table next to it, joins of
tables next to ones that are there, and other roots among the tables that are there. -/
inductive Grown (locked : Bool) : (root : Root) → Query root → Prop
  | start (root : Root) : Grown locked root (start root locked)
  | filter {root : Root} {q : Query root} (h : Grown locked root q) (f : Filter) (proper : f.Proper)
      (near : f.table = root.table ∨ f.table ∈ root.table.neighbours) :
      Grown locked root (q.filter f)
  | join {root : Root} {q : Query root} (h : Grown locked root q) {t u : Table}
      (there : q.tables.contains t = true) (near : u ∈ t.neighbours) (kind : JoinKind) :
      Grown locked root (q.join u kind)
  | turn {root : Root} {q : Query root} (h : Grown locked root q) (target : Root)
      (there : q.tables.contains target.table = true) :
      Grown locked target ⟨q.tables, q.filters, q.locked⟩

namespace Grown

variable {locked : Bool}

/-- The tables of a query hang together. -/
theorem spans (h : Grown locked root q) : q.tables.Spans root.table := by
  induction h with
  | start root => exact JoinSet.spans_start root.table .inner
  | @filter root q h f _ near ih =>
    show (q.tables.insert f.table .inner).Spans root.table
    rcases near with near | near
    · rw [near, JoinSet.insert_of_contains ih.contains]
      exact ih
    · exact ih.insert ih.contains near .inner
  | join _ there near kind ih => exact ih.insert there near kind
  | turn _ _ there ih => exact ih.rebase there

/-- Every condition is about a table of the query. -/
theorem filters (h : Grown locked root q) :
    ∀ f ∈ q.filters, f.Proper ∧ q.tables.contains f.table = true := by
  induction h with
  | start root => simp [Query.start]
  | @filter root q h f proper _ ih =>
    intro f' hf'
    rcases List.mem_append.1 hf' with hf' | hf'
    · exact ⟨(ih f' hf').1, JoinSet.contains_insert_of_contains (ih f' hf').2 _ _⟩
    · rw [List.mem_singleton.1 hf']
      exact ⟨proper, JoinSet.contains_insert_self _ _ _⟩
  | join _ _ _ kind ih =>
    exact fun f hf => ⟨(ih f hf).1, JoinSet.contains_insert_of_contains (ih f hf).2 _ _⟩
  | turn _ _ _ ih => exact ih

theorem locked_eq (h : Grown locked root q) : q.locked = locked := by
  induction h with
  | start root => rfl
  | filter _ _ _ _ ih | join _ _ _ _ ih | turn _ _ _ ih => exact ih

theorem filterId (h : Grown locked root q) (f : Ident → Filter) (id : Ident)
    (proper : (f id).Proper) (near : (f id).table = root.table) :
    Grown locked root (q.filterId f id) := by
  unfold Query.filterId
  split
  · exact h
  · exact h.filter (f id) proper (.inl near)

theorem filterList {α : Type} (h : Grown locked root q) (f : List α → Filter) (as : List α)
    (proper : as ≠ [] → (f as).Proper) (near : (f as).table = root.table) :
    Grown locked root (q.filterList f as) := by
  unfold Query.filterList
  split
  · exact h
  next hne => exact h.filter (f as) (proper (by simpa using hne)) (.inl near)

theorem filterSome {α : Type} (h : Grown locked root q) (f : α → Filter) (a : Option α)
    (proper : ∀ a, (f a).Proper)
    (near : ∀ a, (f a).table = root.table ∨ (f a).table ∈ root.table.neighbours) :
    Grown locked root (q.filterSome f a) := by
  cases a with
  | none => exact h
  | some a => exact h.filter (f a) (proper a) (near a)

/-- What one step does. -/
theorem take {a b : Root} {q : Query a} (h : Grown locked a q) (step : Step a b) :
    Grown locked b (q.take step) := by
  have hroot : q.tables.contains a.table = true := h.spans.contains
  cases step with
  | ids ids => exact h.filterList _ ids (fun _ => trivial) rfl
  | statuses ss => exact h.filterList _ ss (fun _ => trivial) rfl
  | excludeStatuses ss => exact h.filterList _ ss (fun hne => hne) rfl
  | fromTeam id | toTeam id | txId id | orderId id => exact h.filterId _ id trivial rfl
  | submission id | createdBy id | verifiedBy id => exact h.filterId _ id trivial rfl
  | fromTeamKind k | toTeamKind k =>
    exact h.filterSome _ k (fun _ => trivial) fun _ => .inr (by simp [Filter.table, Root.table,
      Table.neighbours])
  | status s | kind k | submissionStatus s =>
    exact h.filterSome _ _ (fun _ => trivial) fun _ => .inl rfl
  | hasSubmission b => exact h.filterSome _ b (fun _ => trivial) fun _ => .inl rfl
  | submitted min max =>
    have hmin := h.filterSome .submittedFrom min (fun _ => trivial) fun _ => .inl rfl
    exact hmin.filterSome .submittedUntil max (fun _ => trivial) fun _ => .inl rfl
  | paid min max =>
    have hmin := h.filterSome .paidFrom min (fun _ => trivial) fun _ => .inl rfl
    exact hmin.filterSome .paidUntil max (fun _ => trivial) fun _ => .inl rfl
  | joinFromTeam k | joinToTeam k => exact h.join hroot (by decide) k
  | toSubmissions k =>
    have hlink := h.join hroot (by decide : Table.link ∈ Table.neighbours .invoice) k
    have hall := hlink.join (JoinSet.contains_insert_self _ _ _)
      (by decide : Table.submission ∈ Table.neighbours .link) k
    exact hall.turn .submission (JoinSet.contains_insert_self _ _ _)
  | toHistories k =>
    have hall := h.join hroot (by decide : Table.history ∈ Table.neighbours .invoice) k
    exact hall.turn .history (JoinSet.contains_insert_self _ _ _)
  | submissionInvoices k =>
    have hlink := h.join hroot (by decide : Table.link ∈ Table.neighbours .submission) k
    have hall := hlink.join (JoinSet.contains_insert_self _ _ _)
      (by decide : Table.invoice ∈ Table.neighbours .link) k
    exact hall.turn .invoice (JoinSet.contains_insert_self _ _ _)
  | historyInvoices k =>
    have hall := h.join hroot (by decide : Table.invoice ∈ Table.neighbours .history) k
    exact hall.turn .invoice (JoinSet.contains_insert_self _ _ _)

theorem follow {a b : Root} {q : Query a} (h : Grown locked a q) (chain : Chain a b) :
    Grown locked b (q.follow chain) := by
  induction chain with
  | nil => exact h
  | cons step rest ih => exact ih (h.take step)

end Grown

/-- Every chain builds its query in such steps. -/
theorem build_grown {a b : Root} (locked : Bool) (chain : Chain a b) :
    Grown locked b (build locked chain) :=
  (Grown.start a).follow chain

theorem plan_planned (q : Query root) : q.tables.Planned [root.table] q.plan :=
  JoinSet.walk_planned Table.all.length fun _ h => h

theorem parent_ne (q : Query root) :
    ∀ step ∈ q.plan, step.parent ≠ .fromTeam ∧ step.parent ≠ .toTeam := by
  refine (plan_planned q).parent_ne fun u hu hteam => ?_
  rw [List.mem_singleton.1 hu] at hteam
  cases root <;> simp [Root.table] at hteam

/-- **Every table of the query is the root or is joined.** -/
theorem contains_iff_mem_plan (h : q.tables.Spans root.table) {u : Table} :
    q.tables.contains u = true ↔ u = root.table ∨ u ∈ q.plan.map (·.table) := by
  have hclosed := JoinSet.walk_closed (s := q.tables) Table.all.length
    (by simp : [root.table].Nodup) (Nat.add_comm _ _) (fun t ht hnot => absurd ht hnot)
  constructor
  · intro hu
    have hmem : u ∈ [root.table] ++ q.plan.map (·.table) := by
      induction h.reaches u hu with
      | refl => exact List.mem_cons_self
      | tail _ hadj ih => exact hclosed _ (ih hadj.2.1) _ hadj.1 hadj.2.2
    simpa using hmem
  · rintro (rfl | hu)
    · exact h.contains
    · obtain ⟨step, hstep, rfl⟩ := List.mem_map.1 hu
      exact (plan_planned q).contains step hstep

/-! ## Links in queries -/

/-- Links are joined only together with submissions. -/
def LinksLead (q : Query root) : Prop :=
  q.tables.contains .link = true → q.tables.contains .submission = true

namespace LinksLead

theorem of_contains (h : q.tables.contains .submission = true) : q.LinksLead := fun _ => h

theorem join (h : q.LinksLead) {t : Table} (ht : t ≠ .link) (kind : JoinKind) :
    (q.join t kind).LinksLead := by
  intro hlink
  refine JoinSet.contains_insert_of_contains (h ?_) t kind
  simpa [Query.join, JoinSet.contains_insert, ht.symm] using hlink

/-- A condition brings in its own table, which is not the one of links. -/
theorem filter (h : q.LinksLead) (f : Filter) : (q.filter f).LinksLead :=
  h.join (by cases f <;> exact Table.noConfusion) .inner

theorem filterId (h : q.LinksLead) (f : Ident → Filter) (id : Ident) : (q.filterId f id).LinksLead := by
  unfold Query.filterId
  split
  · exact h
  · exact h.filter (f id)

theorem filterList {α : Type} (h : q.LinksLead) (f : List α → Filter) (as : List α) :
    (q.filterList f as).LinksLead := by
  unfold Query.filterList
  split
  · exact h
  · exact h.filter (f as)

theorem filterSome {α : Type} (h : q.LinksLead) (f : α → Filter) (a : Option α) :
    (q.filterSome f a).LinksLead := by
  cases a with
  | none => exact h
  | some a => exact h.filter (f a)

theorem take {a b : Root} {q : Query a} (h : q.LinksLead)
    (hroot : q.tables.contains a.table = true) (step : Step a b) : (q.take step).LinksLead := by
  cases step with
  | ids as | statuses as | excludeStatuses as => exact h.filterList _ as
  | fromTeam id | toTeam id | txId id | orderId id => exact h.filterId _ id
  | submission id | createdBy id | verifiedBy id => exact h.filterId _ id
  | fromTeamKind k | toTeamKind k | status k | kind k | hasSubmission k | submissionStatus k =>
    exact h.filterSome _ k
  | submitted min max | paid min max => exact (h.filterSome _ min).filterSome _ max
  | joinFromTeam k | joinToTeam k => exact h.join Table.noConfusion k
  | toHistories k | historyInvoices k => exact h.join Table.noConfusion k
  -- the steps over links lead from submissions or to them
  | toSubmissions k => exact of_contains (JoinSet.contains_insert_self _ _ _)
  | submissionInvoices k =>
    exact of_contains (JoinSet.contains_insert_of_contains
      (JoinSet.contains_insert_of_contains hroot _ _) _ _)

theorem follow {locked : Bool} {a b : Root} {q : Query a} (h : q.LinksLead) (hq : Grown locked a q)
    (chain : Chain a b) : (q.follow chain).LinksLead := by
  induction chain with
  | nil => exact h
  | cons step rest ih => exact ih (h.take hq.spans.contains step) (hq.take step)

theorem build {a b : Root} (locked : Bool) (chain : Chain a b) :
    (Query.build locked chain).LinksLead := by
  refine follow ?_ (.start a) chain
  cases a with
  | submission => exact of_contains (JoinSet.contains_insert_self _ _ _)
  | invoice | history => exact fun hlink => absurd hlink (by cases locked <;> decide)

end LinksLead

/-- Without submissions there are no joins of links. -/
theorem LinksLead.joins (h : q.LinksLead) (hnone : q.tables.contains .submission = false) :
    ∀ step ∈ q.plan, step.table ≠ .link ∧ step.table ≠ .submission := by
  intro step hstep
  have hcontains := (plan_planned q).contains step hstep
  have absent {u : Table} (hu : ¬ q.tables.contains u = true) : step.table ≠ u :=
    fun heq => hu (heq ▸ hcontains)
  have hsubmission : ¬ q.tables.contains .submission = true := by rw [hnone]; exact Bool.noConfusion
  exact ⟨absent fun hlink => hsubmission (h hlink), absent hsubmission⟩

end Query

end TeamLedger
