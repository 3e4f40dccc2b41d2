/-
What a chain of steps asks for.

A step puts conditions on rows (`Step.conditions`) and asks for joins (`Step.joins`); a condition
asks for its own table with them (`Step.requests`). A query is what has been asked for so far, in
order: its conditions are all conditions of the chain, and its tables are those of the list of
requests that starts with the root (`Chain.asked`). The same table may be asked for many times, so
the list is read as a map in which the first entry for a table stands (`JoinSet.insertAll`): which
steps brought the later ones does not show.

The masks of a `JoinSet` are no more and no less than such a map (`JoinSet.entries`), so two sets
are the same as soon as they answer alike for every table. That is why a detour may be taken
anywhere (`Query.follow_eq_self_iff`): what it asks for is there already.
-/
import Mathlib.Data.List.Dedup
import Mathlib.Logic.Equiv.Defs
import TeamLedger.Proofs.JoinPlans

set_option autoImplicit false

namespace TeamLedger

/-! ## The set as a map -/

namespace JoinSet

variable {s s' : JoinSet} {t u : Table}

/-- The tables and kinds that are asked for, one after the other. -/
def insertAll (s : JoinSet) (requests : List (Table × JoinKind)) : JoinSet :=
  requests.foldl (fun s r => s.insert r.1 r.2) s

@[simp] theorem insertAll_nil (s : JoinSet) : s.insertAll [] = s := rfl

@[simp] theorem insertAll_cons (s : JoinSet) (r : Table × JoinKind)
    (requests : List (Table × JoinKind)) :
    s.insertAll (r :: requests) = (s.insert r.1 r.2).insertAll requests := rfl

theorem insertAll_append (s : JoinSet) (requests more : List (Table × JoinKind)) :
    s.insertAll (requests ++ more) = (s.insertAll requests).insertAll more :=
  List.foldl_append

theorem contains_eq_isSome (s : JoinSet) (t : Table) : s.contains t = (s.kind? t).isSome := by
  unfold kind?
  cases s.contains t <;> rfl

@[simp] theorem contains_empty (t : Table) : empty.contains t = false := by
  cases t <;> rfl

theorem kind_eq_getD (s : JoinSet) (t : Table) : s.kind t = (s.kind? t).getD .inner := by
  unfold kind?
  by_cases h : s.contains t = true
  · rw [if_pos h]
    rfl
  · have hleft := left_eq_false (Bool.not_eq_true _ ▸ h)
    rw [if_neg h, kind, hleft]
    rfl

/-- Every bit of the masks belongs to a table. -/
theorem exists_place {i : Nat} (h : i < 6) : ∃ t : Table, (t.place : Nat) = i := by
  match i, h with
  | 0, _ => exact ⟨.invoice, rfl⟩
  | 1, _ => exact ⟨.link, rfl⟩
  | 2, _ => exact ⟨.submission, rfl⟩
  | 3, _ => exact ⟨.history, rfl⟩
  | 4, _ => exact ⟨.fromTeam, rfl⟩
  | 5, _ => exact ⟨.toTeam, rfl⟩

/-- A bit of the second mask says that its table is joined as a left join. -/
theorem getLsbD_left (s : JoinSet) (t : Table) :
    s.left.getLsbD t.place = decide (s.kind t = .left) := by
  unfold kind
  cases s.left.getLsbD t.place <;> rfl

/-- Sets that answer alike for every table are the same. -/
theorem ext_kind? (h : ∀ t, s.kind? t = s'.kind? t) : s = s' := by
  have hpresent : s.present = s'.present := by
    refine BitVec.eq_of_getLsbD_eq fun i hi => ?_
    obtain ⟨t, rfl⟩ := exists_place hi
    calc s.contains t = (s.kind? t).isSome := s.contains_eq_isSome t
      _ = (s'.kind? t).isSome := by rw [h t]
      _ = s'.contains t := (s'.contains_eq_isSome t).symm
  have hleft : s.left = s'.left := by
    refine BitVec.eq_of_getLsbD_eq fun i hi => ?_
    obtain ⟨t, rfl⟩ := exists_place hi
    rw [getLsbD_left, getLsbD_left, kind_eq_getD, kind_eq_getD, h t]
  cases s
  cases s'
  cases hpresent
  cases hleft
  rfl

/-- Of all that was asked for, what was there before comes first and the rest in turn. -/
theorem kind?_insertAll (s : JoinSet) (requests : List (Table × JoinKind)) (t : Table) :
    (s.insertAll requests).kind? t = (s.kind? t).or (requests.lookup t) := by
  induction requests generalizing s with
  | nil => rw [insertAll_nil, List.lookup_nil, Option.or_none]
  | cons r requests ih =>
    rw [insertAll_cons, ih, kind?_insert, List.lookup_cons]
    by_cases h : t = r.1
    · rw [if_pos h, beq_iff_eq.2 h, h]
      cases s.kind? r.1 <;> rfl
    · rw [if_neg h, beq_eq_false_iff_ne.2 h]

theorem contains_insertAll (s : JoinSet) (requests : List (Table × JoinKind)) (t : Table) :
    (s.insertAll requests).contains t = true ↔
      s.contains t = true ∨ t ∈ requests.map Prod.fst := by
  induction requests generalizing s with
  | nil => simp
  | cons r requests ih =>
    rw [insertAll_cons, ih, contains_insert, Bool.or_eq_true, decide_eq_true_eq, List.map_cons,
      List.mem_cons, or_assoc]

/-- Requests change nothing exactly when all their tables are there. -/
theorem insertAll_eq_self_iff (s : JoinSet) (requests : List (Table × JoinKind)) :
    s.insertAll requests = s ↔ ∀ t ∈ requests.map Prod.fst, s.contains t = true := by
  constructor
  · intro h t ht
    rw [← h]
    exact (contains_insertAll s requests t).2 (.inr ht)
  · intro h
    refine ext_kind? fun t => ?_
    rw [kind?_insertAll]
    by_cases ht : s.contains t = true
    · rw [contains_eq_isSome, Option.isSome_iff_exists] at ht
      obtain ⟨k, hk⟩ := ht
      rw [hk, Option.some_or]
    · have hlookup : requests.lookup t = none := by
        refine List.lookup_eq_none_iff.2 fun r hr => bne_iff_ne.2 ?_
        rintro rfl
        exact ht (h r.1 (List.mem_map_of_mem hr))
      rw [hlookup, Option.or_none]

/-- The set with just the entries of a map. -/
def ofEntries (m : Table → Option JoinKind) : JoinSet :=
  empty.insertAll (Table.all.filterMap fun t => (m t).map (t, ·))

theorem kind?_ofEntries (m : Table → Option JoinKind) (t : Table) : (ofEntries m).kind? t = m t := by
  have hlookup (l : List Table) :
      (l.filterMap fun u => (m u).map (u, ·)).lookup t = if t ∈ l then m t else none := by
    induction l with
    | nil => rfl
    | cons u l ih =>
      rw [List.filterMap_cons]
      by_cases h : t = u
      · subst h
        cases hm : m t with
        | none => simpa [hm] using ih
        | some k => simp
      · have hne : (t == u) = false := beq_eq_false_iff_ne.2 h
        cases m u <;> simp [List.lookup_cons, hne, h, ih]
  rw [ofEntries, kind?_insertAll, kind?_empty, Option.none_or, hlookup, if_pos t.mem_all]

/-- **Sets of tables are maps to kinds**: one for each map. -/
def entries : JoinSet ≃ (Table → Option JoinKind) where
  toFun := kind?
  invFun := ofEntries
  left_inv s := ext_kind? (kind?_ofEntries s.kind?)
  right_inv m := funext (kind?_ofEntries m)

/-- A request is a write to the map, which an entry that is there withstands. -/
theorem entries_insert (s : JoinSet) (t : Table) (kind : JoinKind) :
    entries (s.insert t kind) =
      Function.update (entries s) t (some ((entries s t).getD kind)) := by
  funext u
  rw [Function.update_apply]
  exact kind?_insert s t u kind

theorem mem_tables (s : JoinSet) (t : Table) : t ∈ s.tables ↔ s.contains t = true := by
  rw [tables, List.mem_filter]
  exact and_iff_right t.mem_all

theorem nodup_tables (s : JoinSet) : s.tables.Nodup :=
  List.Nodup.filter _ (by decide)

theorem length_tables (s : JoinSet) : s.tables.length = s.size :=
  List.countP_eq_length_filter.symm

/-- The tables are counted by the bits that are set. -/
theorem size_eq_cpop (s : JoinSet) : s.size = s.present.cpopNatRec 6 0 := by
  have htoNat (b : Bool) : b.toNat = if b = true then 1 else 0 := by cases b <;> rfl
  simp only [size, Table.all, Named.all, List.countP_cons, List.countP_nil, contains, Table.place,
    BitVec.cpopNatRec_succ, BitVec.cpopNatRec_zero_self, htoNat]
  rfl

/-- A table that is asked for many times counts once. -/
theorem size_insertAll (requests : List (Table × JoinKind)) :
    (empty.insertAll requests).size = (requests.map Prod.fst).dedup.length := by
  rw [← length_tables]
  refine ((List.perm_ext_iff_of_nodup (nodup_tables _) (List.nodup_dedup _)).2 ?_).length_eq
  intro t
  rw [mem_tables, contains_insertAll, contains_empty, List.mem_dedup]
  simp

theorem isEmpty_iff (s : JoinSet) : s.isEmpty = true ↔ ∀ t, s.kind? t = none := by
  constructor
  · intro h t
    have hpresent : s.present = 0 := eq_of_beq h
    rw [kind?, contains, hpresent, BitVec.ofNat_eq_ofNat, BitVec.getLsbD_zero]
    rfl
  · intro h
    have heq : s = empty := ext_kind? fun t => by rw [h t, kind?_empty]
    rw [heq]
    rfl

/-- The sets read as maps in which the entry that was written first stands. -/
structure FirstStands (e : JoinSet ≃ (Table → Option JoinKind)) : Prop where
  empty : e empty = fun _ => none
  insert : ∀ s t kind, e (s.insert t kind) = Function.update (e s) t (some ((e s t).getD kind))
  contains : ∀ s t, s.contains t = (e s t).isSome
  kind : ∀ s t, s.kind t = (e s t).getD .inner
  size : ∀ s, s.size = Table.all.countP fun t => (e s t).isSome
  isEmpty : ∀ s, s.isEmpty = true ↔ ∀ t, e s t = none

theorem entries_firstStands : FirstStands entries where
  empty := funext kind?_empty
  insert := entries_insert
  contains := contains_eq_isSome
  kind := kind_eq_getD
  size s := List.countP_congr fun t _ => by rw [s.contains_eq_isSome t]; rfl
  isEmpty := isEmpty_iff

end JoinSet

/-! ## What steps ask for -/

namespace Query

/-- A condition on an id, if there is an id. -/
def conditionOnId (f : Ident → Filter) (id : Ident) : List Filter :=
  if id = 0 then [] else [f id]

/-- A condition on a list, if there is anything in it. -/
def conditionOnList {α : Type} (f : List α → Filter) : List α → List Filter
  | [] => []
  | a :: as => [f (a :: as)]

/-- A condition on a value, if there is one. -/
def conditionOn {α : Type} (f : α → Filter) : Option α → List Filter
  | none => []
  | some a => [f a]

namespace Step

variable {a b : Root}

/-- The conditions that a step puts on rows. -/
def conditions : Step a b → List Filter
  | .ids l => conditionOnList .invoiceIds l
  | .fromTeam id => conditionOnId .fromTeam id
  | .toTeam id => conditionOnId .toTeam id
  | .fromTeamKind k => conditionOn .fromTeamKind k
  | .toTeamKind k => conditionOn .toTeamKind k
  | .status s => conditionOn .status s
  | .statuses ss => conditionOnList .statusIn ss
  | .excludeStatuses ss => conditionOnList .statusNotIn ss
  | .kind k => conditionOn .kind k
  | .hasSubmission w => conditionOn .hasSubmission w
  | .txId id => conditionOnId .txId id
  | .orderId id => conditionOnId .orderId id
  | .submission id => conditionOnId .submissionId id
  | .createdBy id => conditionOnId .createdBy id
  | .verifiedBy id => conditionOnId .verifiedBy id
  | .submissionStatus s => conditionOn .submissionStatus s
  | .submitted min max => conditionOn .submittedFrom min ++ conditionOn .submittedUntil max
  | .paid min max => conditionOn .paidFrom min ++ conditionOn .paidUntil max
  | .joinFromTeam _ | .joinToTeam _ | .toSubmissions _ | .toHistories _ | .submissionInvoices _
  | .historyInvoices _ => []

/-- The joins that a step asks for by itself. -/
def joins : Step a b → List (Table × JoinKind)
  | .joinFromTeam k => [(.fromTeam, k)]
  | .joinToTeam k => [(.toTeam, k)]
  | .toSubmissions k => [(.link, k), (.submission, k)]
  | .toHistories k => [(.history, k)]
  | .submissionInvoices k => [(.link, k), (.invoice, k)]
  | .historyInvoices k => [(.invoice, k)]
  | _ => []

/-- Everything that a step asks for: the tables of its conditions, and its joins. -/
def requests (step : Step a b) : List (Table × JoinKind) :=
  step.conditions.map (fun f => (f.table, .inner)) ++ step.joins

/-- The root that a step turns to. -/
def turn? : Step a b → Option Root
  | .toSubmissions _ => some .submission
  | .toHistories _ => some .history
  | .submissionInvoices _ | .historyInvoices _ => some .invoice
  | _ => none

theorem turn?_getD (step : Step a b) : step.turn?.getD a = b := by
  cases step <;> rfl

end Step

/-- A query after it was asked for more, and turned to a root. -/
def asking {a : Root} (q : Query a) (b : Root) (requests : List (Table × JoinKind))
    (conditions : List Filter) : Query b :=
  ⟨q.tables.insertAll requests, q.filters ++ conditions, q.locked⟩

section Asking

variable {root : Root} (q : Query root)

theorem filter_asking (f : Filter) : q.filter f = q.asking root [(f.table, .inner)] [f] := rfl

theorem filterId_asking (f : Ident → Filter) (id : Ident) :
    q.filterId f id =
      q.asking root ((conditionOnId f id).map fun f => (f.table, .inner)) (conditionOnId f id) := by
  unfold filterId conditionOnId
  split
  · simp [asking]
  · exact q.filter_asking (f id)

theorem filterList_asking {α : Type} (f : List α → Filter) (as : List α) :
    q.filterList f as =
      q.asking root ((conditionOnList f as).map fun f => (f.table, .inner))
        (conditionOnList f as) := by
  cases as with
  | nil => simp [filterList, conditionOnList, asking]
  | cons a as => exact q.filter_asking (f (a :: as))

theorem filterSome_asking {α : Type} (f : α → Filter) (a : Option α) :
    q.filterSome f a =
      q.asking root ((conditionOn f a).map fun f => (f.table, .inner)) (conditionOn f a) := by
  cases a with
  | none => simp [filterSome, conditionOn, asking]
  | some a => exact q.filter_asking (f a)

end Asking

theorem asking_asking {a b c : Root} (q : Query a) (requests requests' : List (Table × JoinKind))
    (conditions conditions' : List Filter) :
    (q.asking b requests conditions).asking c requests' conditions' =
      q.asking c (requests ++ requests') (conditions ++ conditions') := by
  simp only [asking, JoinSet.insertAll_append, List.append_assoc]

/-- Taking a step is asking for what it asks for. -/
theorem take_asking {a b : Root} (q : Query a) (step : Step a b) :
    q.take step = q.asking b step.requests step.conditions := by
  -- a step that joins nothing by itself asks for the tables of its conditions
  have hrequests (hjoins : step.joins = []) :
      step.requests = step.conditions.map fun f => (f.table, .inner) := by
    rw [Step.requests, hjoins, List.append_nil]
  cases step with
  | ids | statuses | excludeStatuses => rw [hrequests rfl]; exact q.filterList_asking _ _
  | fromTeam | toTeam | txId | orderId | submission | createdBy | verifiedBy =>
    rw [hrequests rfl]; exact q.filterId_asking _ _
  | fromTeamKind | toTeamKind | status | kind | hasSubmission | submissionStatus =>
    rw [hrequests rfl]; exact q.filterSome_asking _ _
  | submitted min max | paid min max =>
    rw [hrequests rfl]
    simp only [take, filterSome_asking, asking_asking, Step.conditions, List.map_append]
  | joinFromTeam | joinToTeam | toSubmissions | toHistories | submissionInvoices
  | historyInvoices =>
    simp [take, join, pivot, asking, Step.requests, Step.conditions, Step.joins]

/-! ## What chains ask for -/

namespace Chain

variable {a b c : Root}

/-- The conditions of all steps, in order. -/
def conditions {a b : Root} : Chain a b → List Filter
  | .nil => []
  | .cons step rest => step.conditions ++ rest.conditions

/-- Everything that the steps ask for, in order. -/
def requests {a b : Root} : Chain a b → List (Table × JoinKind)
  | .nil => []
  | .cons step rest => step.requests ++ rest.requests

/-- The roots that the steps turn to, in order. -/
def turns {a b : Root} : Chain a b → List Root
  | .nil => []
  | .cons step rest => step.turn?.toList ++ rest.turns

/-- Everything that is asked for from the beginning: the root first. -/
def asked (chain : Chain a b) : List (Table × JoinKind) := (a.table, .inner) :: chain.requests

/-- One chain after the other. -/
def append {a b c : Root} : Chain a b → Chain b c → Chain a c
  | .nil, rest => rest
  | .cons step front, rest => .cons step (front.append rest)

theorem turns_getLastD {a b : Root} (chain : Chain a b) : chain.turns.getLastD a = b := by
  induction chain with
  | nil => rfl
  | @cons a b c step rest ih =>
    have hstep := step.turn?_getD
    -- the root to fall back to is the one before the step, or the one that it turns to
    rw [turns]
    cases hturn : step.turn? with
    | none =>
      rw [hturn, Option.getD_none] at hstep
      subst hstep
      exact ih
    | some root =>
      rw [hturn, Option.getD_some] at hstep
      subst hstep
      rw [Option.toList_some, List.singleton_append, List.getLastD_cons]
      exact ih

end Chain

theorem follow_asking {a b : Root} (q : Query a) (chain : Chain a b) :
    q.follow chain = q.asking b chain.requests chain.conditions := by
  induction chain with
  | nil => simp [follow, asking, Chain.requests, Chain.conditions]
  | cons step rest ih =>
    rw [follow, ih, take_asking, asking_asking, Chain.requests, Chain.conditions]

theorem follow_append {a b c : Root} (q : Query a) (front : Chain a b) (rest : Chain b c) :
    q.follow (front.append rest) = (q.follow front).follow rest := by
  induction front with
  | nil => rfl
  | cons step front ih => exact ih (q.take step) rest

/-- A way back to the same root leaves a query as it is exactly when it puts no conditions and asks
for tables only that are there. -/
theorem follow_eq_self_iff {root : Root} (q : Query root) (detour : Chain root root) :
    q.follow detour = q ↔
      detour.conditions = [] ∧ ∀ t ∈ detour.requests.map Prod.fst, q.tables.contains t = true := by
  rw [follow_asking, ← JoinSet.insertAll_eq_self_iff]
  cases q
  simp [asking, and_comm]

/-- A query is what its chain asks for, from nothing. -/
theorem build_asking {a b : Root} (locked : Bool) (chain : Chain a b) :
    build locked chain = ⟨JoinSet.empty.insertAll chain.asked, chain.conditions, locked⟩ := by
  rw [build, follow_asking]
  simp [asking, start, Chain.asked]

/-- **Chains mean what they say.** A query is locked if its chain began so, has the root that was
turned to last, all conditions of the chain in order, and the tables that were asked for, each with
the kind that it was asked for first. A detour that puts no conditions and asks only for what is
there may be taken anywhere on the way. -/
theorem build_means {a b : Root} (locked : Bool) (chain : Chain a b) :
    (build locked chain).locked = locked ∧
    b = chain.turns.getLastD a ∧
    (build locked chain).filters = chain.conditions ∧
    (∀ t, ((build locked chain).tables.contains t = true ↔ t ∈ chain.asked.map Prod.fst) ∧
      (build locked chain).tables.kind? t = chain.asked.lookup t) ∧
    (build locked chain).tables.size = (chain.asked.map Prod.fst).dedup.length ∧
    (∀ {c : Root} (detour : Chain b b) (rest : Chain b c), detour.conditions = [] →
      (∀ t ∈ detour.requests.map Prod.fst, (build locked chain).tables.contains t = true) →
      build locked (chain.append (detour.append rest)) = build locked (chain.append rest)) ∧
    JoinSet.FirstStands JoinSet.entries := by
  have hbuild := build_asking locked chain
  refine ⟨?_, chain.turns_getLastD.symm, ?_, fun t => ⟨?_, ?_⟩, ?_, ?_, JoinSet.entries_firstStands⟩
  · rw [hbuild]
  · rw [hbuild]
  · rw [hbuild, JoinSet.contains_insertAll, JoinSet.contains_empty]
    simp
  · rw [hbuild, JoinSet.kind?_insertAll, JoinSet.kind?_empty, Option.none_or]
  · rw [hbuild]
    exact JoinSet.size_insertAll chain.asked
  · intro c detour rest hconditions hthere
    have hdetour : (build locked chain).follow detour = build locked chain :=
      (follow_eq_self_iff _ detour).2 ⟨hconditions, hthere⟩
    calc build locked (chain.append (detour.append rest))
        = ((build locked chain).follow detour).follow rest := by
          rw [build, follow_append, follow_append]
          rfl
      _ = (build locked chain).follow rest := by rw [hdetour]
      _ = build locked (chain.append rest) := (follow_append _ chain rest).symm

/-- After invoices were left for their submissions and come back to, their teams joined first with a
left join, one may ask for nothing, for the teams again and for the way there and back again. -/
theorem build_means_detour :
    build true
      (.cons (.joinFromTeam .left) (.cons (.toSubmissions .inner) (.cons (.submissionInvoices .left)
        (.cons (.status none) (.cons (.joinFromTeam .inner) (.cons (.toSubmissions .left)
          (.cons (.submissionInvoices .left) (.cons (.fromTeamKind (some .selling)) .nil)))))))) =
    build true
      (.cons (.joinFromTeam .left) (.cons (.toSubmissions .inner) (.cons (.submissionInvoices .left)
        (.cons (.fromTeamKind (some .selling)) .nil)))) :=
  (build_means true (.cons (.joinFromTeam .left) (.cons (.toSubmissions .inner)
    (.cons (.submissionInvoices .left) .nil)))).2.2.2.2.2.1
    (.cons (.status none) (.cons (.joinFromTeam .inner) (.cons (.toSubmissions .left)
      (.cons (.submissionInvoices .left) .nil))))
    (.cons (.fromTeamKind (some .selling)) .nil) rfl (by decide)

end Query

end TeamLedger
