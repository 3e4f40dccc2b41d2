/-
The mark of being part of a submission.

An invoice is marked when a submission is created of it, and is no longer marked
when the submission has been rejected. The mark has no part in the age of an
invoice, in its amount, or in the columns that joins compare. So a query that
leaves submissions out finds the same invoices in the same order, whatever their
marks, unless it asks for them (`Query.select_remarked`).

What creating chooses depends on the invoices found and on which of them are part
of a submission under way. If these are the same, it chooses the same
(`Tables.chosen_remarked`).
-/
import TeamLedger.Proofs.Creating
import TeamLedger.Proofs.JoinPlans

set_option autoImplicit false

namespace TeamLedger

/-- The invoice with the mark that a rule gives it. -/
def Invoice.remarked (mark : Invoice → Bool) (i : Invoice) : Invoice :=
  { i with hasSubmission := mark i }

/-- The second state has the invoices of the first one, marked by a rule, and the same teams and
payments. -/
structure Tables.Remarked (mark : Invoice → Bool) (t t' : Tables) : Prop where
  invoices : t'.invoices = t.invoices.map (Invoice.remarked mark)
  teams : t'.teams = t.teams
  histories : t'.histories = t.histories

variable {mark : Invoice → Bool} {t t' : Tables}

theorem Invoice.remarked_eq_self {i : Invoice} (h : mark i = i.hasSubmission) :
    i.remarked mark = i := by
  rw [remarked, h]

/-! ## Joining -/

namespace Joined

/-- The row with its invoice, if there is one, marked by a rule. -/
def remarked (mark : Invoice → Bool) (a : Joined) : Joined :=
  { a with invoice := a.invoice.map (Invoice.remarked mark) }

theorem toList_remarked {β : Type} (found : Option β) {f g : β → Joined}
    (h : ∀ b, g b = (f b).remarked mark) :
    (found.map g).toList = (found.map f).toList.map (remarked mark) := by
  cases found with
  | none => rfl
  | some b =>
    simp only [Option.map_some, Option.toList_some, List.map_cons, List.map_nil, h]

/-- Joins compare no marks. -/
theorem partners_remarked (h : t.Remarked mark t') (a : Joined) (parent : Table) {table : Table}
    (hlink : table ≠ .link) (hsubmission : table ≠ .submission) :
    (a.remarked mark).partners t' parent table =
      (a.partners t parent table).map (remarked mark) := by
  cases table with
  | link => exact absurd rfl hlink
  | submission => exact absurd rfl hsubmission
  | invoice =>
    cases parent with
    | link =>
      have found_eq : (a.link.bind fun l => t'.invoices.get? l.invoiceId) =
          (a.link.bind fun l => t.invoices.get? l.invoiceId).map (Invoice.remarked mark) := by
        rw [h.invoices, Option.map_bind]
        exact congrArg _ (funext fun l => Rows.get?_map ..)
      show ((a.link.bind fun l => t'.invoices.get? l.invoiceId).map _).toList = _
      rw [found_eq, Option.map_map]
      exact toList_remarked _ fun i => rfl
    | history =>
      simp only [partners, remarked, h.invoices, Rows.values_map, List.filter_map, List.map_map]
      cases a.history with
      | none => rfl
      | some x =>
        simp only [Option.elim_some, List.map_map]
        rfl
    | _ => rfl
  -- these are looked up by columns of the invoice that have nothing to do with its mark
  | history | fromTeam | toTeam =>
    cases parent with
    | invoice =>
      simp only [partners, remarked, h.histories, h.teams, Option.bind_map]
      exact toList_remarked _ fun x => rfl
    | _ => rfl

theorem join_remarked (h : t.Remarked mark t') (a : Joined) {step : JoinStep}
    (hstep : step.table ≠ .link ∧ step.table ≠ .submission) :
    (a.remarked mark).join t' step = (a.join t step).map (remarked mark) := by
  unfold join
  rw [partners_remarked h a step.parent hstep.1 hstep.2]
  simp only [List.isEmpty_map]
  split <;> rfl

theorem joinAll_remarked (h : t.Remarked mark t') {plan : List JoinStep}
    (hplan : ∀ step ∈ plan, step.table ≠ .link ∧ step.table ≠ .submission) (rows : List Joined) :
    joinAll t' plan (rows.map (remarked mark)) = (joinAll t plan rows).map (remarked mark) := by
  unfold joinAll
  -- along the plan; every step takes all rows on, so they are general
  induction plan generalizing rows with
  | nil => rfl
  | cons step plan ih =>
    have hstep := hplan step List.mem_cons_self
    have joined : (rows.map (remarked mark)).flatMap (·.join t' step) =
        (rows.flatMap (·.join t step)).map (remarked mark) := by
      rw [List.flatMap_map, List.map_flatMap]
      exact List.flatMap_congr fun a _ => join_remarked h a hstep
    rw [List.foldl_cons, List.foldl_cons, joined]
    exact ih (fun step hstep => hplan step (List.mem_cons_of_mem _ hstep)) _

/-- Only conditions on the mark look at it. -/
theorem meets_remarked {f : Filter} (hf : ∀ b, f = .hasSubmission b → ∀ i, mark i = i.hasSubmission)
    (a : Joined) : (a.remarked mark).meets f = a.meets f := by
  cases f with
  | hasSubmission b =>
    have same : a.remarked mark = a := by
      have remarked_eq : Invoice.remarked mark = id :=
        funext fun i => Invoice.remarked_eq_self (hf b rfl i)
      rw [remarked, remarked_eq, Option.map_id_fun, id]
    rw [same]
  | _ => simp only [meets, remarked, Option.any_map] <;> rfl

/-- A join of another table leaves the invoice as it is. -/
theorem invoice_of_mem_partners {a j : Joined} {parent table : Table} (htable : table ≠ .invoice)
    (h : j ∈ a.partners t parent table) : j.invoice = a.invoice := by
  have of_found {β : Type} {found : Option β} {f : β → Joined}
      (h : j ∈ (found.map f).toList) : ∃ b, f b = j := by
    obtain ⟨b, -, hb⟩ := Option.map_eq_some_iff.1 (Option.mem_toList.1 h)
    exact ⟨b, hb⟩
  have of_linked {α : Type} {o : Option α} {p : α → Link → Bool} {f : Link → Joined}
      (h : j ∈ o.elim [] fun x => (t.links.filter (p x)).map f) : ∃ l, f l = j := by
    cases o with
    | none => cases h
    | some x =>
      obtain ⟨l, -, hl⟩ := List.mem_map.1 h
      exact ⟨l, hl⟩
  cases table with
  | invoice => exact absurd rfl htable
  | link =>
    cases parent with
    | invoice | submission =>
      obtain ⟨l, rfl⟩ := of_linked h
      rfl
    | _ => cases h
  | submission =>
    cases parent with
    | link =>
      obtain ⟨x, rfl⟩ := of_found h
      rfl
    | _ => cases h
  | history | fromTeam | toTeam =>
    cases parent with
    | invoice =>
      obtain ⟨x, rfl⟩ := of_found h
      rfl
    | _ => cases h

theorem invoice_of_mem_joinAll {plan : List JoinStep} (hplan : ∀ step ∈ plan, step.table ≠ .invoice)
    {rows : List Joined} {o : Option Invoice} (hrows : ∀ a ∈ rows, a.invoice = o) {j : Joined}
    (h : j ∈ joinAll t plan rows) : j.invoice = o := by
  -- along the plan, with the rows that have been joined so far
  induction plan generalizing rows with
  | nil => exact hrows j h
  | cons step plan ih =>
    refine ih (fun step hstep => hplan step (List.mem_cons_of_mem _ hstep)) (fun b hb => ?_) h
    obtain ⟨a, ha, hb⟩ := List.mem_flatMap.1 hb
    unfold join at hb
    dsimp only at hb
    split at hb
    · -- nothing was found, and the row is kept without a partner
      rw [List.mem_singleton.1 hb, hrows a ha]
    · rw [invoice_of_mem_partners (hplan step List.mem_cons_self) hb, hrows a ha]

end Joined

/-! ## Finding -/

namespace Query

variable {q : Query .invoice}

theorem matched_remarked (h : t.Remarked mark t')
    (hplan : ∀ step ∈ q.plan, step.table ≠ .link ∧ step.table ≠ .submission)
    (hmark : ∀ b, .hasSubmission b ∈ q.filters → ∀ i, mark i = i.hasSubmission) (i : Invoice) :
    q.matched t' (i.remarked mark) = q.matched t i := by
  have start : [Joined.ofRoot .invoice (i.remarked mark)] =
      [Joined.ofRoot .invoice i].map (Joined.remarked mark) := rfl
  unfold matched
  rw [start, Joined.joinAll_remarked h hplan, List.any_map]
  refine congrArg (List.any _) (funext fun a => ?_)
  rw [Function.comp_apply, Bool.eq_iff_iff, List.all_eq_true, List.all_eq_true]
  refine forall₂_congr fun f hf => ?_
  rw [Joined.meets_remarked fun b hb => hmark b (hb ▸ hf)]

/-- A query for invoices without a mark finds no others. -/
theorem unmarked_of_mem_select (hno : .hasSubmission false ∈ q.filters) {i : Invoice}
    (h : i ∈ q.select t) : i.hasSubmission = false := by
  obtain ⟨a, ha, hall⟩ := List.any_eq_true.1 (List.mem_filter.1 h).2
  have invoice_eq : a.invoice = some i := by
    refine Joined.invoice_of_mem_joinAll (fun step hstep heq => ?_) (fun b hb => ?_) ha
    · exact q.plan_planned.fresh step hstep (heq ▸ List.mem_cons_self)
    · rw [List.mem_singleton.1 hb]
      rfl
  have hmeets := List.all_eq_true.1 hall _ hno
  simpa [Joined.meets, invoice_eq] using hmeets

/-- **A query that leaves submissions out** finds the same invoices, whatever their marks. -/
theorem select_remarked (h : t.Remarked mark t')
    (hplan : ∀ step ∈ q.plan, step.table ≠ .link ∧ step.table ≠ .submission)
    (hmark : ∀ b, .hasSubmission b ∈ q.filters → ∀ i, mark i = i.hasSubmission) :
    q.select t' = (q.select t).map (Invoice.remarked mark) := by
  show t'.invoices.values.filter (q.matched t') = _
  rw [h.invoices, Rows.values_map, List.filter_map]
  refine congrArg (List.map _) (List.filter_congr fun i _ => ?_)
  exact matched_remarked h hplan hmark i

end Query

/-- The mark has no part in the age. -/
theorem Invoice.oldestFirst_remarked (is : List Invoice) :
    oldestFirst (is.map (remarked mark)) = (oldestFirst is).map (remarked mark) := by
  have insert_eq (a : Invoice) (bs : List Invoice) :
      (a.remarked mark).insertByAge (bs.map (remarked mark)) =
        (a.insertByAge bs).map (remarked mark) := by
    induction bs with
    | nil => rfl
    | cons b bs ih =>
      rw [List.map_cons, insertByAge, insertByAge, ih]
      have same_age : (a.remarked mark).notYounger (b.remarked mark) ↔ a.notYounger b := Iff.rfl
      simp only [same_age]
      split <;> rfl
  induction is with
  | nil => rfl
  | cons i is ih =>
    show (i.remarked mark).insertByAge (oldestFirst (is.map (remarked mark))) = _
    rw [ih, insert_eq]
    rfl

/-! ## Choosing -/

namespace Selection

variable {active active' : List Ident} {target : Money}

/-- Selecting looks at no marks, and at the ids of active invoices only among those that it is given. -/
theorem gather_remarked (is : List Invoice) (total : Money)
    (h : ∀ i ∈ is, i.id ∈ active' ↔ i.id ∈ active) :
    gather active' target total (is.map (Invoice.remarked mark)) = gather active target total is := by
  -- the total is general, as every invoice that is taken raises it
  induction is generalizing total with
  | nil => rfl
  | cons i is ih =>
    have same_active : active'.contains (i.remarked mark).id = active.contains i.id := by
      rw [Bool.eq_iff_iff, List.contains_iff_mem, List.contains_iff_mem]
      exact h i List.mem_cons_self
    have hrest := fun total => ih total fun i hi => h i (List.mem_cons_of_mem _ hi)
    rw [List.map_cons, gather, gather, same_active]
    simp only [hrest]
    rfl

theorem select_remarked (is : List Invoice) (h : ∀ i ∈ is, i.id ∈ active' ↔ i.id ∈ active) :
    select (is.map (Invoice.remarked mark)) active' target = select is active target := by
  unfold select
  rw [gather_remarked is _ h]

end Selection

/-- **What creating chooses** is the same if the same invoices are part of submissions under way. -/
theorem Tables.chosen_remarked {q : Query .invoice} (ht : t.Keyed) (ht' : t'.Keyed)
    (h : t.Remarked mark t') (hactive : ∀ id, t'.Active id ↔ t.Active id)
    (hplan : ∀ step ∈ q.plan, step.table ≠ .link ∧ step.table ≠ .submission)
    (hmark : ∀ b, .hasSubmission b ∈ q.filters → ∀ i, mark i = i.hasSubmission) (amount : Money) :
    t'.chosen q amount = t.chosen q amount := by
  -- rows found are rows stored, so that the question which are under way can be asked by id
  have there (i) (hi : i ∈ Root.invoice.inOrder (q.select t)) : t.invoices.get? i.id = some i :=
    Query.there_of_found ht (Root.inOrder_perm .invoice _) hi
  have there' (i) (hi : i ∈ Root.invoice.inOrder (q.select t')) : t'.invoices.get? i.id = some i :=
    Query.there_of_found ht' (Root.inOrder_perm .invoice _) hi
  have found_eq : Root.invoice.inOrder (q.select t') =
      (Root.invoice.inOrder (q.select t)).map (Invoice.remarked mark) := by
    rw [Query.select_remarked h hplan hmark]
    exact Invoice.oldestFirst_remarked _
  rw [found_eq] at there'
  unfold chosen
  simp only [found_eq]
  generalize Root.invoice.inOrder (q.select t) = found at there there' ⊢
  have ids_eq : (found.map (Invoice.remarked mark)).map (·.id) = found.map (·.id) := by
    rw [List.map_map]
    rfl
  have target_eq : Workflow.targetOf (found.map (Invoice.remarked mark)) amount =
      Workflow.targetOf found amount := by
    unfold Workflow.targetOf
    rw [List.map_map]
    rfl
  have active_iff (i) (_ : i ∈ found) :
      i.id ∈ t'.activeAmong (found.map (Invoice.remarked mark)) ↔ i.id ∈ t.activeAmong found := by
    rw [mem_activeAmong ht' there', mem_activeAmong ht there, ids_eq, hactive]
  rw [target_eq]
  simp only [Selection.select_remarked found active_iff]

end TeamLedger
