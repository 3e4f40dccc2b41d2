/-
What the two queries of the workflows return.

Both go from an invoice over its links to submissions, by inner joins. So an
invoice is returned when some link of it leads to a submission that is there and
meets the conditions: to one under way, for the invoices that are taken already,
and to a given one, for the invoices of a submission. The order in which
invoices come is by age, and only rearranges them.
-/
import TeamLedger.Ledger.Select
import TeamLedger.Proofs.Rows

set_option autoImplicit false

namespace TeamLedger

/-! ## Any query -/

namespace Query

variable {root : Root} {q : Query root} {t : Tables}

/-- Only rows of the root are returned. -/
theorem mem_values_of_mem_select {row : root.Row} (h : row ∈ q.select t) :
    row ∈ (root.rows t).values :=
  (List.mem_filter.1 h).1

/-- Different rows that are returned have different ids. -/
theorem nodup_select (h : (root.rows t).KeyedBy root.idOf) :
    ((q.select t).map root.idOf).Nodup :=
  h.nodup_map.sublist (List.filter_sublist.map _)

end Query

namespace Invoice

theorem insertByAge_perm (a : Invoice) (bs : List Invoice) : (a.insertByAge bs).Perm (a :: bs) := by
  induction bs with
  | nil => exact .refl _
  | cons b bs ih =>
    unfold insertByAge
    split
    · exact .refl _
    · exact (ih.cons b).trans (.swap a b bs)

/-- Sorting by age rearranges. -/
theorem oldestFirst_perm (is : List Invoice) : (oldestFirst is).Perm is := by
  induction is with
  | nil => exact .refl _
  | cons a is ih => exact (insertByAge_perm a _).trans (ih.cons a)

end Invoice

/-- The rows are returned in an order of their own. -/
theorem Root.inOrder_perm (root : Root) (rows : List root.Row) : (root.inOrder rows).Perm rows := by
  cases root with
  | invoice => exact Invoice.oldestFirst_perm rows
  | submission | history => exact .refl _

/-! ## From an invoice over its links to submissions -/

namespace Joined

variable {t : Tables}

/-- An invoice with a link of it and the submission that the link leads to. -/
theorem mem_joinAll_links {i : Invoice} {row : Joined} :
    row ∈ joinAll t [⟨.invoice, .link, .inner⟩, ⟨.link, .submission, .inner⟩]
        [ofRoot .invoice i] ↔
      ∃ l ∈ t.links, l.invoiceId = i.id ∧ ∃ x, t.submissions.get? l.submissionId = some x ∧
        row = { invoice := some i, link := some l, submission := some x } := by
  simp only [joinAll, List.foldl_cons, List.foldl_nil, List.flatMap_cons, List.flatMap_nil,
    List.append_nil, List.mem_flatMap, join, reduceCtorEq, and_false, if_false, partners, ofRoot,
    Option.elim_some, List.mem_map, List.mem_filter, decide_eq_true_eq]
  constructor
  · rintro ⟨row', ⟨l, ⟨hl, hid⟩, rfl⟩, hrow⟩
    simp only [Option.bind_some, Option.mem_toList, Option.map_eq_some_iff] at hrow
    obtain ⟨x, hx, rfl⟩ := hrow
    exact ⟨l, hl, hid, x, hx, rfl⟩
  · rintro ⟨l, hl, hid, x, hx, rfl⟩
    refine ⟨_, ⟨l, ⟨hl, hid⟩, rfl⟩, ?_⟩
    simp only [Option.bind_some, Option.mem_toList, Option.map_eq_some_iff]
    exact ⟨x, hx, rfl⟩

end Joined

namespace Query

variable {t : Tables}

/-- The tables that both queries go over. -/
def linkedTables : JoinSet :=
  ((JoinSet.empty.insert .invoice .inner).insert .link .inner).insert .submission .inner

theorem activeInvoices_eq {ids : List Ident} (h : ids ≠ []) :
    activeInvoices ids =
      ⟨linkedTables, [.invoiceIds ids, .submissionStatus .submitted], false⟩ := by
  have nonempty : ids.isEmpty = false := by simpa using h
  simp only [activeInvoices, build, follow, take, filterList, nonempty, Bool.false_eq_true, if_false,
    filterSome, Option.elim_some, filter, join, pivot, start, List.foldl_cons, List.foldl_nil]
  -- tables that are joined already are joined as they were
  refine congrArg (fun tables => (⟨tables, [.invoiceIds ids, .submissionStatus .submitted], false⟩ :
    Query .invoice)) (?_ : ((((((JoinSet.empty.insert .invoice .inner).insert .invoice .inner).insert
      .link .inner).insert .submission .inner).insert .submission .inner).insert .link
      .inner).insert .invoice .inner = linkedTables)
  decide

theorem invoicesOf_eq {id : Ident} (h : id ≠ 0) (locked : Bool) :
    invoicesOf id locked = ⟨linkedTables, [.submissionId id], locked⟩ := by
  simp only [invoicesOf, build, follow, take, filterId, if_neg h, filter, join, pivot, start,
    List.foldl_cons, List.foldl_nil]
  refine congrArg (fun tables => (⟨tables, [.submissionId id], locked⟩ : Query .invoice))
    (?_ : (((JoinSet.empty.insert .submission .inner).insert .submission .inner).insert .link
      .inner).insert .invoice .inner = linkedTables)
  decide

theorem locked_invoicesOf (id : Ident) (locked : Bool) : (invoicesOf id locked).locked = locked := by
  simp only [invoicesOf, build, follow, take, filterId]
  split <;> rfl

theorem plan_linkedTables (filters : List Filter) (locked : Bool) :
    (⟨linkedTables, filters, locked⟩ : Query .invoice).plan =
      [⟨.invoice, .link, .inner⟩, ⟨.link, .submission, .inner⟩] := by
  show linkedTables.walk 6 [.invoice] [.invoice] = _
  decide

/-- The invoices among the listed ones that are part of a submission under way. -/
theorem mem_select_activeInvoices {ids : List Ident} (h : ids ≠ []) {i : Invoice} :
    i ∈ (activeInvoices ids).select t ↔ i ∈ t.invoices.values ∧ i.id ∈ ids ∧
      ∃ l ∈ t.links, l.invoiceId = i.id ∧
        ∃ x, t.submissions.get? l.submissionId = some x ∧ x.status = .submitted := by
  rw [activeInvoices_eq h]
  unfold select matched
  rw [List.mem_filter, plan_linkedTables, List.any_eq_true]
  refine and_congr Iff.rfl ?_
  simp only [Joined.mem_joinAll_links, List.all_cons, List.all_nil, Bool.and_true,
    Bool.and_eq_true]
  constructor
  · rintro ⟨row, ⟨l, hl, hlid, x, hx, rfl⟩, hids, hstatus⟩
    simp only [Joined.meets, Option.any_some, List.contains_iff_mem, decide_eq_true_eq]
      at hids hstatus
    exact ⟨hids, l, hl, hlid, x, hx, hstatus⟩
  · rintro ⟨hids, l, hl, hlid, x, hx, hstatus⟩
    refine ⟨_, ⟨l, hl, hlid, x, hx, rfl⟩, ?_⟩
    simp only [Joined.meets, Option.any_some, List.contains_iff_mem, decide_eq_true_eq]
    exact ⟨hids, hstatus⟩

/-- The invoices of a submission. -/
theorem mem_select_invoicesOf {id : Ident} (h : id ≠ 0) (locked : Bool) {i : Invoice}
    (hkeyed : t.submissions.KeyedBy Submission.id) :
    i ∈ (invoicesOf id locked).select t ↔ i ∈ t.invoices.values ∧ ⟨i.id, id⟩ ∈ t.links ∧
      (t.submissions.get? id).isSome := by
  rw [invoicesOf_eq h]
  unfold select matched
  rw [List.mem_filter, plan_linkedTables, List.any_eq_true]
  refine and_congr Iff.rfl ?_
  simp only [Joined.mem_joinAll_links, List.all_cons, List.all_nil, Bool.and_true]
  constructor
  · rintro ⟨row, ⟨l, hl, hlid, x, hx, rfl⟩, hmeets⟩
    simp only [Joined.meets, Option.any_some, decide_eq_true_eq] at hmeets
    have hsub : l.submissionId = id := (hkeyed _ x hx).symm.trans hmeets
    obtain ⟨_, _⟩ := l
    cases hlid
    cases hsub
    exact ⟨hl, by rw [hx]; rfl⟩
  · rintro ⟨hl, hsome⟩
    obtain ⟨x, hx⟩ := Option.isSome_iff_exists.1 hsome
    refine ⟨_, ⟨_, hl, rfl, x, hx, rfl⟩, ?_⟩
    simp only [Joined.meets, Option.any_some, decide_eq_true_eq]
    exact hkeyed id x hx

end Query

end TeamLedger
