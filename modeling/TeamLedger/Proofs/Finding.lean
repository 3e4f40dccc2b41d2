/-
Queries return what their statements say.

The ledger in memory joins table by table and keeps the rows that meet all
conditions; a statement for a database says which rows are to be returned. Both
mean the same: a row is returned if and only if stored rows, or none, can be
assigned to the tables of the query such that every join fits and all conditions
are true (`Query.mem_select_iff`, `Query.returns_iff`).

The rows have to be stored under their own ids, which is so in every session of
every world that can be reached (`World.Logged.indexed`).
-/
import TeamLedger.Proofs.Ages
import TeamLedger.Proofs.Joining
import TeamLedger.Proofs.Locks

set_option autoImplicit false

namespace TeamLedger

open Sql

/-! ## Queries -/

namespace Query

variable {root : Root} {q : Query root} {t : Tables} {row : root.Row} {a : Joined}

/-- **The assignment answers the query**: stored rows or none for the tables of the query, the row
for the root, such that every join of the plan fits and all conditions are true. -/
structure Assigned (q : Query root) (t : Tables) (row : root.Row) (a : Joined) : Prop where
  root : a.rootRow root = some row
  stored : ∀ u r, a.get u = some r → q.tables.contains u = true ∧ t.Stored u r
  joins : ∀ step ∈ q.plan, step.toJoin.Fits t a
  conditions : ∀ f ∈ q.filters, f.condition.Holds a

theorem rootRow_eq_some_iff : a.rootRow root = some row ↔
    a.get root.table = (Joined.ofRoot root row).get root.table := by
  cases root <;> exact Iff.rfl

theorem get_ofRoot_of_ne {u : Table} (h : u ≠ root.table) : (Joined.ofRoot root row).get u = none := by
  cases root <;> cases u <;> first | rfl | exact absurd rfl h

theorem stored_of_rootRow (h : a.rootRow root = some row) (hrow : row ∈ (root.rows t).values)
    {r : root.table.Row} (hr : a.get root.table = some r) : t.Stored root.table r := by
  rw [rootRow_eq_some_iff.1 h] at hr
  cases root <;> exact Option.some.inj hr ▸ hrow

theorem mem_of_stored (h : a.rootRow root = some row)
    (hstored : ∀ u r, a.get u = some r → t.Stored u r) : row ∈ (root.rows t).values := by
  cases root with
  | invoice => exact hstored .invoice row h
  | submission => exact hstored .submission row h
  | history => exact hstored .history row h

/-- Which assignments answer a query, given the row of the root. The tables of the query are the root
and those of the plan. -/
theorem assigned_iff (hq : q.tables.Spans root.table) (hrow : row ∈ (root.rows t).values) :
    q.Assigned t row a ↔ a.rootRow root = some row ∧
      (∀ u, u ≠ root.table → u ∉ q.plan.map (·.table) → a.get u = none) ∧
      (∀ step ∈ q.plan, step.toJoin.Fits t a) ∧ ∀ f ∈ q.filters, f.condition.Holds a := by
  constructor
  · intro ha
    refine ⟨ha.root, fun u hu hmem => ?_, ha.joins, ha.conditions⟩
    cases hget : a.get u with
    | none => rfl
    | some r =>
      have hcontains := (contains_iff_mem_plan hq).1 (ha.stored u r hget).1
      exact absurd hcontains (not_or.2 ⟨hu, hmem⟩)
  · rintro ⟨hroot, hothers, hjoins, hconditions⟩
    refine ⟨hroot, fun u r hr => ?_, hjoins, hconditions⟩
    by_cases hu : u = root.table
    · subst hu
      exact ⟨hq.contains, stored_of_rootRow hroot hrow hr⟩
    · by_cases hmem : u ∈ q.plan.map (·.table)
      · refine ⟨(contains_iff_mem_plan hq).2 (.inr hmem), ?_⟩
        obtain ⟨step, hstep, rfl⟩ := List.mem_map.1 hmem
        rcases Joined.fits_iff.1 (hjoins step hstep) with ⟨r', hr', hstored, -⟩ | ⟨hnull, -⟩
        · rw [hr] at hr'
          exact Option.some.inj hr' ▸ hstored
        · rw [hr] at hnull
          cases hnull
      · rw [hothers u hu hmem] at hr
        cases hr

/-- **The rows that are found are those of the assignments that answer the query.** -/
theorem mem_select_iff {locked : Bool} (hq : Grown locked root q) (h : t.Indexed) :
    row ∈ q.select t ↔ ∃ a, q.Assigned t row a := by
  have hmeets : ∀ a : Joined, q.filters.all a.meets = true ↔
      ∀ f ∈ q.filters, f.condition.Holds a := by
    intro a
    rw [List.all_eq_true]
    exact forall₂_congr fun f hf => Joined.meets_iff (hq.filters f hf).1
  have hrows : ∀ a, a ∈ Joined.joinAll t q.plan [Joined.ofRoot root row] ↔
      a.rootRow root = some row ∧
      (∀ u, u ≠ root.table → u ∉ q.plan.map (·.table) → a.get u = none) ∧
      ∀ step ∈ q.plan, step.toJoin.Fits t a := by
    intro a
    rw [Joined.mem_joinAll_iff h q.plan_planned q.parent_ne
      fun u hu => get_ofRoot_of_ne fun heq => hu (List.mem_singleton.2 heq)]
    simp only [List.mem_singleton, forall_eq, rootRow_eq_some_iff]
  unfold select matched
  rw [List.mem_filter, List.any_eq_true]
  constructor
  · rintro ⟨hrow, a, ha, hconditions⟩
    obtain ⟨hroot, hothers, hjoins⟩ := (hrows a).1 ha
    exact ⟨a, (assigned_iff hq.spans hrow).2
      ⟨hroot, hothers, hjoins, (hmeets a).1 hconditions⟩⟩
  · rintro ⟨a, ha⟩
    have hrow := mem_of_stored ha.root fun u r hr => (ha.stored u r hr).2
    obtain ⟨hroot, hothers, hjoins, hconditions⟩ := (assigned_iff hq.spans hrow).1 ha
    exact ⟨hrow, a, (hrows a).2 ⟨hroot, hothers, hjoins⟩, (hmeets a).2 hconditions⟩

/-- What the subquery of a query's statement yields. -/
theorem yields_iff : q.toSelect.Yields t a ↔
    (∃ row ∈ (root.rows t).values, a.rootRow root = some row) ∧
      (∀ u, u ≠ root.table → u ∉ q.plan.map (·.table) → a.get u = none) ∧
      (∀ step ∈ q.plan, step.toJoin.Fits t a) ∧ ∀ f ∈ q.filters, f.condition.Holds a := by
  have htables : q.toSelect.joins.map (·.table) = q.plan.map (·.table) := by
    simp only [toSelect, List.map_map]
    rfl
  have hjoins : (∀ j ∈ q.toSelect.joins, j.Fits t a) ↔ ∀ step ∈ q.plan, step.toJoin.Fits t a :=
    List.forall_mem_map
  have hconditions : (∀ c ∈ q.toSelect.conditions, c.Holds a) ↔
      ∀ f ∈ q.filters, f.condition.Holds a := List.forall_mem_map
  rw [← htables, ← hjoins, ← hconditions]
  exact ⟨fun h => ⟨h.stored, h.others, h.joins, h.conditions⟩,
    fun h => ⟨h.2.1, h.1, h.2.2.1, h.2.2.2⟩⟩

/-- **A query means what its statement says**: there is an assignment that answers it for exactly the
rows that the statement returns. -/
theorem returns_iff (hq : q.tables.Spans root.table) (h : t.Indexed) :
    q.toSelect.Returns t row ↔ ∃ a, q.Assigned t row a := by
  have hkeyed := h.rows root
  constructor
  · rintro ⟨hrow, a, ha, hid⟩
    obtain ⟨⟨row', hrow', hroot⟩, hrest⟩ := yields_iff.1 ha
    rw [hroot, Option.map_some, Option.some.injEq] at hid
    -- ids are those of one row each
    have heq : row' = row := by
      have hfound := hkeyed.mem_values_iff.1 hrow'
      rw [hid, hkeyed.mem_values_iff.1 hrow] at hfound
      exact (Option.some.inj hfound).symm
    exact ⟨a, (assigned_iff hq hrow).2 ⟨heq ▸ hroot, hrest⟩⟩
  · rintro ⟨a, ha⟩
    have hrow := mem_of_stored ha.root fun u r hr => (ha.stored u r hr).2
    refine ⟨hrow, a, yields_iff.2 ⟨⟨row, hrow, ha.root⟩, ?_⟩, ?_⟩
    · exact ((assigned_iff hq hrow).1 ha).2
    · rw [ha.root, Option.map_some]

end Query

/-! ## Worlds -/

theorem Tables.Indexed.apply {t : Tables} {c : Changes} (h : t.teams.KeyedBy Team.id) (ht : t.Keyed)
    (hc : c.Keyed) : (t.apply c).Indexed where
  teams := h
  invoices := ht.invoices.overlay hc.invoices
  submissions := ht.submissions.overlay hc.submissions
  histories := ht.histories.overlay hc.histories

theorem Ledger.teams_commit (l : Ledger) (s : Session) :
    (l.commit s).2.tables.teams = l.tables.teams := by
  unfold commit
  split <;> rfl

namespace World

variable {w : World} {log : List Note} {around : Surroundings}

/-- Only adding teams changes the teams. -/
theorem teams_keyed_happen (h : w.ledger.tables.teams.KeyedBy Team.id) (e : LedgerEvent) :
    (w.happen e).ledger.tables.teams.KeyedBy Team.id := by
  cases e with
  | begin name =>
    show (w.begin name).ledger.tables.teams.KeyedBy Team.id
    rw [tables_begin]
    exact h
  | rollback name =>
    show (w.rollback name).ledger.tables.teams.KeyedBy Team.id
    rw [tables_rollback]
    exact h
  | commit name =>
    show (w.commit name).2.ledger.tables.teams.KeyedBy Team.id
    cases hs : w.open? name with
    | none =>
      rw [ledger_commit_of_none hs]
      exact h
    | some s =>
      rw [(commit_of_open? hs).2, Ledger.teams_commit]
      exact h
  | call name c =>
    cases hs : w.open? name with
    | none =>
      rw [happen_call_of_none hs]
      exact h
    | some s =>
      obtain ⟨w', -, rfl, hledger, -⟩ := run_call hs c
      rw [hledger, (s.answer_ledger w.ledger c).tables]
      exact h
  | addTeam name kind => exact h.insert (w.addTeam name kind).1

theorem Logged.teams_keyed (h : Logged around w log) :
    w.ledger.tables.teams.KeyedBy Team.id := by
  induction h with
  | start => exact Rows.KeyedBy.empty
  | step _ e ih => exact teams_keyed_happen ih e

/-- What a session sees is stored under its own ids. -/
theorem Logged.indexed (h : Logged around w log) {name : String} {s : Session}
    (hs : w.open? name = some s) : (w.ledger.tables.apply s.changes).Indexed :=
  .apply h.teams_keyed h.traced.sound.keyed (h.traced.sound.fits name s hs).changes_keyed

end World

/-! ## Sessions -/

namespace Query

/-- **Queries return what their statements say.** Whatever chain builds it, and whatever rows there
are, with links and teams that lead nowhere: a query that runs into no lock returns the rows of the
assignments that answer it, which are the rows that its statement returns, each of them once and in
order. It runs into a lock only if it locks, over a row that it would return and another session has
locked. -/
theorem find_returns {a root : Root} (locked : Bool) (chain : Chain a root) (l : Ledger)
    (s : Session) (h : (l.tables.apply s.changes).Indexed) :
    (build locked chain).statement = (build locked chain).toSelect.statement ∧
    ((∃ rows, (s.answer l (.find root (build locked chain))).1 = .ok rows ∧
        (∀ row, row ∈ rows ↔
          ∃ joined, (build locked chain).Assigned (l.tables.apply s.changes) row joined) ∧
        (∀ row, row ∈ rows ↔ (build locked chain).toSelect.Returns (l.tables.apply s.changes) row) ∧
        (rows.map root.idOf).Nodup ∧ rows.Pairwise root.Before) ∨
      locked = true ∧
        ∃ row joined, (build locked chain).Assigned (l.tables.apply s.changes) row joined ∧
          l.taken s.id ⟨root, root.idOf row⟩ = true ∧
          (s.answer l (.find root (build locked chain))).1 =
            .error (.refused (.lockConflict (.row (root.idOf row) root.table)))) := by
  have hgrown := build_grown locked chain
  refine ⟨statement_eq _, ?_⟩
  generalize build locked chain = q at hgrown
  have hmem : ∀ row, row ∈ root.inOrder (q.select (l.tables.apply s.changes)) ↔
      ∃ joined, q.Assigned (l.tables.apply s.changes) row joined := fun row =>
    (root.inOrder_perm _).mem_iff.trans (mem_select_iff hgrown h)
  have hreturned : ∃ rows, (.ok (root.inOrder (q.select (l.tables.apply s.changes))) :
        Except Failure (List root.Row)) = .ok rows ∧
      (∀ row, row ∈ rows ↔ ∃ joined, q.Assigned (l.tables.apply s.changes) row joined) ∧
      (∀ row, row ∈ rows ↔ q.toSelect.Returns (l.tables.apply s.changes) row) ∧
      (rows.map root.idOf).Nodup ∧ rows.Pairwise root.Before := by
    refine ⟨_, rfl, hmem, fun row => (hmem row).trans (returns_iff hgrown.spans h).symm, ?_, ?_⟩
    · exact ((root.inOrder_perm _).map root.idOf).nodup_iff.2 (nodup_select (h.rows root))
    · exact q.inOrder_sorted (h.rows root)
  cases locked with
  | false =>
    refine .inl ?_
    have hanswer : (s.answer l (.find root q)).1 =
        .ok (root.inOrder (q.select (l.tables.apply s.changes))) := by
      simp only [Session.answer, Session.find, hgrown.locked_eq, Bool.false_eq_true, if_false,
        Session.refresh_view]
      rfl
    rw [hanswer]
    exact hreturned
  | true =>
    rcases s.answer_find_locked l hgrown.locked_eq with ⟨-, hanswer⟩ | ⟨row, hrow, htaken, hanswer⟩
    · refine .inl ?_
      rw [hanswer]
      exact hreturned
    · obtain ⟨joined, hassigned⟩ := (mem_select_iff hgrown h).1 hrow
      refine .inr ⟨rfl, row, joined, hassigned, htaken, ?_⟩
      rw [hanswer]

/-- The invoices without a submission, by left joins to their teams and submissions. -/
def unsubmitted : Chain .invoice .invoice :=
  .cons (.joinFromTeam .left) (.cons (.toSubmissions .left) (.cons (.submissionInvoices .inner)
    (.cons (.hasSubmission (some false)) .nil)))

/-- An invoice of a team that is not there, with a link to a submission that is not there, is
returned: a link is assigned to it, but neither a team nor a submission. -/
theorem find_returns_dangling : ∃ w log s rows,
    World.Logged { clock := ⟨⟨0, 0, by decide⟩⟩ } w log ∧ w.open? "reader" = some s ∧
      (s.answer w.ledger (.find .invoice (build false unsubmitted))).1 = .ok rows ∧
      rows.map Invoice.id = [1] ∧ ∀ row ∈ rows, ∃ joined,
        (build false unsubmitted).Assigned (w.ledger.tables.apply s.changes) row joined := by
  have key (w log s) (h : World.Logged { clock := ⟨⟨0, 0, by decide⟩⟩ } w log)
      (hs : w.open? "reader" = some s)
      (hids : (s.answer w.ledger (.find .invoice (build false unsubmitted))).1.toOption.map
        (List.map Invoice.id) = some [1]) :
      ∃ rows, (s.answer w.ledger (.find .invoice (build false unsubmitted))).1 = .ok rows ∧
        rows.map Invoice.id = [1] ∧ ∀ row ∈ rows, ∃ joined,
          (build false unsubmitted).Assigned (w.ledger.tables.apply s.changes) row joined := by
    obtain ⟨-, ⟨rows, hrows, hassigned, -⟩ | ⟨hlocked, -⟩⟩ :=
      find_returns false unsubmitted w.ledger s (h.indexed hs)
    · rw [hrows] at hids
      exact ⟨rows, hrows, Option.some.inj hids, fun row hrow => (hassigned row).1 hrow⟩
    · cases hlocked
  have h : World.Logged { clock := ⟨⟨0, 0, by decide⟩⟩ } _ _ :=
    ((((World.Logged.start.step (.begin "seed")).step (.call "seed" (.insertInvoice default))).step
      (.call "seed" (.linkInvoices 5 [1]))).step (.commit "seed")).step (.begin "reader")
  obtain ⟨rows, hrows⟩ := key _ _ _ h rfl (by decide +kernel)
  exact ⟨_, _, _, rows, h, rfl, hrows⟩

end Query

end TeamLedger
