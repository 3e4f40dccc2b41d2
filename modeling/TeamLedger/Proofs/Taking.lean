/-
Which invoices are taken for a payment, and what they add up to.

Selecting and settling both go through a list of invoices and add amounts up
from the left, so both are compared with `Money.total` of the invoices that they
take. A selection that succeeds takes a sublist of unpaid invoices, none of them
active, whose total has the value of the target: it was never beyond the target,
and at the end it is not short of it.

The total is the true sum when addition is exact on these amounts
(`SumsExactly`). A list of invoices has this property for all its parts and in
any order, because the services rearrange and pass over invoices before they add.
-/
import TeamLedger.Workflow
import TeamLedger.Proofs.Moves

set_option autoImplicit false

namespace TeamLedger

/-! ## Exact sums -/

/-- However some of the invoices are put in a row, each at most once, their amounts add up without
rounding. -/
def Invoice.SumsExactly (is : List Invoice) : Prop :=
  ∀ part : List Invoice, part.Nodup → part ⊆ is →
    ∃ m, Money.total (part.map (·.amount)) = .ok m ∧ m.units = sumUnits part

theorem Invoice.SumsExactly.units_eq {is part : List Invoice} (h : SumsExactly is)
    (hnodup : part.Nodup) (hsub : part ⊆ is) {m : Money}
    (hm : Money.total (part.map (·.amount)) = .ok m) : m.units = sumUnits part := by
  obtain ⟨m', hm', hunits⟩ := h part hnodup hsub
  cases hm.symm.trans hm'
  exact hunits

/-- One amount needs no rounding. -/
theorem Invoice.sumsExactly_of_length_le {is : List Invoice} (h : is.length ≤ 1) :
    SumsExactly is := by
  have same : ∀ i ∈ is, ∀ j ∈ is, i = j := by
    intro i hi j hj
    cases is with
    | nil => cases hi
    | cons k rest =>
      obtain rfl : rest = [] := List.eq_nil_of_length_eq_zero (by simpa using h)
      rw [List.mem_singleton.1 hi, List.mem_singleton.1 hj]
  intro part hnodup hsub
  cases part with
  | nil => exact ⟨.zero, rfl, by simp [Money.units, Money.zero, sumUnits]⟩
  | cons i rest =>
    cases rest with
    | nil => exact ⟨i.amount, rfl, by simp [sumUnits]⟩
    | cons j rest =>
      -- there are no two invoices in the list
      have hij := same i (hsub List.mem_cons_self) j (hsub (List.mem_cons_of_mem _ List.mem_cons_self))
      rw [hij] at hnodup
      exact absurd List.mem_cons_self (List.nodup_cons.1 hnodup).1

/-! ## Selecting -/

namespace Selection

/-- A selection that succeeds has taken some of the invoices, in their order. All of them are unpaid
and not active, the sum is that of their amounts, and with every invoice it stayed below the target. -/
theorem gather_eq_ok {active : List Ident} {target : Money} {is : List Invoice} {total sum : Money}
    {ids : List Ident} (h : gather active target total is = .ok (ids, sum)) :
    ∃ taken : List Invoice, taken.Sublist is ∧ ids = taken.map (·.id) ∧
      (∀ i ∈ taken, i.status = .notPaid ∧ i.id ∉ active) ∧
      (taken.map (·.amount)).foldlM Money.add total = .ok sum ∧ (taken ≠ [] → ¬ target < sum) := by
  induction is generalizing total sum ids with
  | nil =>
    cases h
    exact ⟨[], .slnil, rfl, fun i hi => (nomatch hi), rfl, fun hne => absurd rfl hne⟩
  | cons i rest ih =>
    unfold gather at h
    -- an invoice that is passed over leaves the sum as it is
    have skip (h : gather active target total rest = .ok (ids, sum)) :
        ∃ taken : List Invoice, taken.Sublist (i :: rest) ∧ ids = taken.map (·.id) ∧
          (∀ i ∈ taken, i.status = .notPaid ∧ i.id ∉ active) ∧
          (taken.map (·.amount)).foldlM Money.add total = .ok sum ∧
          (taken ≠ [] → ¬ target < sum) := by
      obtain ⟨taken, hsub, hrest⟩ := ih h
      exact ⟨taken, hsub.cons i, hrest⟩
    split at h
    next => cases h
    next => cases h
    next => exact skip h
    next hunpaid =>
      split at h
      next => exact skip h
      next hactive =>
        have hfree : i.id ∉ active := by simpa using hactive
        split at h
        next => cases h
        next total' hadd =>
          split at h
          next => cases h
          next hover =>
            split at h
            next =>
              -- the target is reached, and nothing behind is looked at
              cases h
              refine ⟨[i], List.singleton_sublist.2 List.mem_cons_self, rfl, ?_, ?_, fun _ => hover⟩
              · intro j hj
                rw [List.mem_singleton.1 hj]
                exact ⟨hunpaid, hfree⟩
              · rw [List.map_singleton, List.foldlM_cons, hadd]
                rfl
            next =>
              cases hg : gather active target total' rest with
              | error e =>
                rw [hg] at h
                cases h
              | ok taken' =>
                rw [hg] at h
                cases h
                obtain ⟨taken, hsub, hids, hfine, hsum, hbelow⟩ := ih hg
                refine ⟨i :: taken, hsub.cons_cons i, ?_, ?_, ?_, ?_⟩
                · rw [hids]
                  rfl
                · intro j hj
                  rcases List.mem_cons.1 hj with rfl | hj
                  · exact ⟨hunpaid, hfree⟩
                  · exact hfine j hj
                · rw [List.map_cons, List.foldlM_cons, hadd]
                  exact hsum
                · intro _
                  by_cases hnil : taken = []
                  · subst hnil
                    cases hsum
                    exact hover
                  · exact hbelow hnil

/-- **What a selection takes** is worth the target. -/
theorem select_eq_ok {is : List Invoice} {active : List Ident} {target : Money} {ids : List Ident}
    (h : select is active target = .ok ids) :
    ∃ taken : List Invoice, taken.Sublist is ∧ ids = taken.map (·.id) ∧ taken ≠ [] ∧
      (∀ i ∈ taken, i.status = .notPaid ∧ i.id ∉ active) ∧
      ∃ sum, Money.total (taken.map (·.amount)) = .ok sum ∧ sum.units = target.units := by
  unfold select at h
  cases hg : gather active target .zero is with
  | error e =>
    rw [hg] at h
    cases h
  | ok selected =>
    obtain ⟨ids', sum⟩ := selected
    rw [hg] at h
    obtain ⟨taken, hsub, hids, hfine, hsum, hbelow⟩ := gather_eq_ok hg
    replace h : (if sum < target then throw (.refused (.amount (.shortfall target sum)))
      else if ids'.isEmpty then throw (.refused (.amount .nothingToSubmit))
      else pure ids' : Except Failure (List Ident)) = .ok ids := h
    split at h
    next => cases h
    next hreached =>
      split at h
      next => cases h
      next hnonempty =>
        cases h
        have hne : taken ≠ [] := by
          rintro rfl
          exact hnonempty (by rw [hids]; rfl)
        refine ⟨taken, hsub, hids, hne, hfine, sum, hsum, ?_⟩
        -- neither above the target nor below it
        have hnot_over := hbelow hne
        rw [Money.lt_iff] at hreached hnot_over
        omega

end Selection

/-! ## Settling -/

/-- Those of the invoices that are unpaid. -/
def Invoice.unpaidAmong (is : List Invoice) : List Invoice := is.filter (·.status = .notPaid)

/-- Settling the invoice calls for an adjustment. -/
def Invoice.flagged (i : Invoice) : Bool := i.needAdjustment && !i.kind.isAdjustment

namespace Invoice

variable {i : Invoice} {is : List Invoice}

theorem mem_unpaidAmong : i ∈ unpaidAmong is ↔ i ∈ is ∧ i.status = .notPaid := by
  unfold unpaidAmong
  rw [List.mem_filter, decide_eq_true_eq]

theorem unpaidAmong_sublist (is : List Invoice) : (unpaidAmong is).Sublist is :=
  List.filter_sublist

theorem unpaidAmong_cons_of_notPaid (h : i.status = .notPaid) (is : List Invoice) :
    unpaidAmong (i :: is) = i :: unpaidAmong is :=
  List.filter_cons_of_pos (decide_eq_true h)

theorem unpaidAmong_cons_of_ne (h : i.status ≠ .notPaid) (is : List Invoice) :
    unpaidAmong (i :: is) = unpaidAmong is :=
  List.filter_cons_of_neg (by rw [decide_eq_true_eq]; exact h)

/-- If all invoices are unpaid, these are all. -/
theorem unpaidAmong_eq_self (h : ∀ i ∈ is, i.status = .notPaid) : unpaidAmong is = is :=
  List.filter_eq_self.2 fun i hi => decide_eq_true (h i hi)

end Invoice

namespace Workflow.Settling

/-- Settling passes over a cancelled invoice, and takes an unpaid one if the sum can be made. -/
theorem add_eq_ok_iff {st st' : Settling} {i : Invoice} : st.add i = .ok st' ↔
    i.status = .cancelled ∧ st' = st ∨
      i.status = .notPaid ∧ st.total.add i.amount = .ok st'.total ∧
        st'.payable = st.payable ++ [i.id] ∧
        st'.toAdjust = st.toAdjust ++ [i].filter Invoice.flagged := by
  unfold add
  cases i.status with
  | notFinal | paid => simp
  | cancelled =>
    simp only [Except.ok.injEq, true_and, reduceCtorEq, false_and, or_false]
    exact eq_comm
  | notPaid =>
    obtain ⟨payable', total', toAdjust'⟩ := st'
    have flagged_eq : (if i.needAdjustment && !i.kind.isAdjustment then st.toAdjust ++ [i]
        else st.toAdjust) = st.toAdjust ++ [i].filter Invoice.flagged := by
      rw [List.filter_cons, List.filter_nil, Invoice.flagged]
      split
      · rfl
      · exact (List.append_nil _).symm
    cases st.total.add i.amount with
    | error operation => simp
    | ok total =>
      simp only [flagged_eq, Except.ok.injEq, mk.injEq, reduceCtorEq, false_and, true_and, false_or]
      constructor
      · rintro ⟨rfl, rfl, rfl⟩
        exact ⟨rfl, rfl, rfl⟩
      · rintro ⟨rfl, rfl, rfl⟩
        exact ⟨rfl, rfl, rfl⟩

/-- **What settling goes through** is unpaid or cancelled. The unpaid invoices are payable and the
total is theirs, and those of them that are flagged are to be adjusted. -/
theorem foldlM_eq_ok_iff {is : List Invoice} {st st' : Settling} :
    is.foldlM Settling.add st = .ok st' ↔
      (∀ i ∈ is, i.status = .notPaid ∨ i.status = .cancelled) ∧
        ((Invoice.unpaidAmong is).map (·.amount)).foldlM Money.add st.total = .ok st'.total ∧
        st'.payable = st.payable ++ (Invoice.unpaidAmong is).map (·.id) ∧
        st'.toAdjust = st.toAdjust ++ (Invoice.unpaidAmong is).filter Invoice.flagged := by
  induction is generalizing st with
  | nil =>
    obtain ⟨payable, total, toAdjust⟩ := st
    obtain ⟨payable', total', toAdjust'⟩ := st'
    simp [Invoice.unpaidAmong, pure, Except.pure, eq_comm, and_left_comm]
  | cons i rest ih =>
    have step : (i :: rest).foldlM Settling.add st = .ok st' ↔
        ∃ mid, st.add i = .ok mid ∧ rest.foldlM Settling.add mid = .ok st' := by
      rw [List.foldlM_cons]
      cases st.add i with
      | error e => simp [bind, Except.bind]
      | ok mid => simp [bind, Except.bind]
    rw [step, List.forall_mem_cons]
    simp only [add_eq_ok_iff, ih]
    by_cases hunpaid : i.status = .notPaid
    · have filter_eq : (i :: Invoice.unpaidAmong rest).filter Invoice.flagged =
          [i].filter Invoice.flagged ++ (Invoice.unpaidAmong rest).filter Invoice.flagged :=
        List.filter_append [i] _
      rw [Invoice.unpaidAmong_cons_of_notPaid hunpaid, List.map_cons, List.foldlM_cons,
        List.map_cons, filter_eq, ← List.append_assoc]
      constructor
      · rintro ⟨mid, ⟨hcancelled, -⟩ | ⟨-, hadd, hpayable, hadjust⟩, hall, hsum, hids, hflagged⟩
        · cases hunpaid.symm.trans hcancelled
        · refine ⟨⟨.inl hunpaid, hall⟩, ?_, ?_, ?_⟩
          · rw [hadd]
            exact hsum
          · rw [hids, hpayable, List.append_assoc]
            rfl
          · rw [hflagged, hadjust]
      · rintro ⟨⟨-, hall⟩, hsum, hids, hflagged⟩
        cases hadd : st.total.add i.amount with
        | error operation =>
          rw [hadd] at hsum
          cases hsum
        | ok total =>
          rw [hadd] at hsum
          refine ⟨⟨st.payable ++ [i.id], total, _⟩, .inr ⟨hunpaid, rfl, rfl, rfl⟩, hall, hsum, ?_,
            hflagged⟩
          rw [hids, List.append_assoc]
          rfl
    · rw [Invoice.unpaidAmong_cons_of_ne hunpaid]
      constructor
      · rintro ⟨mid, ⟨hcancelled, rfl⟩ | ⟨hstatus, -⟩, hall, hrest⟩
        · exact ⟨⟨.inr hcancelled, hall⟩, hrest⟩
        · exact absurd hstatus hunpaid
      · rintro ⟨⟨hstatus | hcancelled, hall⟩, hrest⟩
        · exact absurd hstatus hunpaid
        · exact ⟨st, .inl ⟨hcancelled, rfl⟩, hall, hrest⟩

end Workflow.Settling

end TeamLedger
