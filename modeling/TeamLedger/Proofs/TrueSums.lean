/-
What invoices are worth, and that sums of a ledger come to it.

A list of invoices is ledger-sized if it is no longer than a ledger can be and all
its amounts are of a ledger. So is every part of it, in any order, and every sum
that is formed of such a list is the true one. That is all that is used here of
the size: the hypotheses on exact sums hold of all these lists at once.

Selecting is then compared with the same loop over numbers (`Selection.weigh`),
which has no way to overflow and compares true sums with the target.
-/
import Mathlib.Algebra.BigOperators.Group.List.Basic
import Mathlib.Data.List.Perm.Subperm
import TeamLedger.Proofs.Balancing
import TeamLedger.Proofs.Magnitudes
import TeamLedger.Proofs.OldestFirst

set_option autoImplicit false

namespace TeamLedger

/-! ## The worth of invoices -/

namespace Invoice

variable {is js : List Invoice}

/-- What the invoices are worth together. -/
def worth (is : List Invoice) : ℚ := (is.map (·.amount.value)).sum

theorem worth_cons (i : Invoice) (is : List Invoice) : worth (i :: is) = i.amount.value + worth is :=
  List.sum_cons

theorem worth_perm (h : is.Perm js) : worth is = worth js := (h.map _).sum_eq

/-- The worth is the sum of all units. -/
theorem sumUnits_cast (is : List Invoice) :
    (sumUnits is : ℚ) = worth is * ((10 ^ 28 : Nat) : ℚ) := by
  induction is with
  | nil => simp [sumUnits, worth]
  | cons i is ih => rw [sumUnits_cons, worth_cons, Int.cast_add, ih, Money.units_cast, add_mul]

/-- An amount that has the units of the invoices is what they are worth. -/
theorem value_eq_worth {m : Money} (h : m.units = sumUnits is) : m.value = worth is :=
  Money.value_eq_of_units (by rw [h, sumUnits_cast])

theorem value_sub_worth {a m : Money} (h : m.units = a.units - sumUnits is) :
    m.value = a.value - worth is :=
  Money.value_eq_of_units (by rw [h, Int.cast_sub, Money.units_cast, sumUnits_cast, sub_mul])

/-! ## Lists of the size of a ledger -/

/-- The invoices are no more than a ledger can have, and all amounts are of a ledger. -/
structure LedgerSized (is : List Invoice) : Prop where
  length_le : is.length ≤ 1000000000
  amounts : ∀ i ∈ is, i.amount.LedgerSized

namespace LedgerSized

theorem of_scale_le (hlength : is.length ≤ 1000000000)
    (hamounts : ∀ i ∈ is, i.amount.scale ≤ 4 ∧
      i.amount.mantissa.natAbs < 10 ^ 15 * 10 ^ i.amount.scale) : LedgerSized is where
  length_le := hlength
  amounts i hi := Money.ledgerSized_of_scale_le (hamounts i hi).1 (hamounts i hi).2

/-- Some of the invoices, in any order. -/
theorem part (h : LedgerSized is) (hpart : js.Subperm is) : LedgerSized js where
  length_le := Nat.le_trans hpart.length_le h.length_le
  amounts i hi := h.amounts i (hpart.subset hi)

theorem sublist (h : LedgerSized is) (hsub : js.Sublist is) : LedgerSized js := h.part hsub.subperm

/-- **A row of operations** on amounts of a ledger is exact. -/
theorem foldlM (h : LedgerSized is) {operation : Money → Money → Except Money.Overflow Money}
    {sign : Int} (hoperation : Money.Exact operation sign) {a : Money} (ha : a.LedgerSized) :
    ∃ m, (is.map (·.amount)).foldlM operation a = .ok m ∧
      m.units = a.units + sign * sumUnits is := by
  have hlength := h.length_le
  exact hoperation.foldlM ha.within (fun i hi => (h.amounts i hi).within) (by omega)

theorem zero : Money.zero.LedgerSized := Money.ledgerSized_of_scale_le (by decide) (by decide)

/-- **The amounts add up** to their true sum. -/
theorem addUp (h : LedgerSized is) : AddUp is := by
  obtain ⟨m, hm, hunits⟩ := h.foldlM Money.exact_add zero
  refine ⟨m, hm, hunits.trans ?_⟩
  rw [Int.one_mul]
  exact Int.zero_add _

/-- What the amounts add up to is worth what the invoices are. -/
theorem value_eq (h : LedgerSized is) {m : Money}
    (hm : Money.total (is.map (·.amount)) = .ok m) : m.value = worth is :=
  value_eq_worth (h.addUp.units_eq hm)

theorem exists_total (h : LedgerSized is) :
    ∃ m, Money.total (is.map (·.amount)) = .ok m ∧ m.value = worth is := by
  obtain ⟨m, hm, -⟩ := h.addUp
  exact ⟨m, hm, h.value_eq hm⟩

theorem addsUp (h : LedgerSized is) : AddsUp is := fun _ hfront => (h.sublist hfront.sublist).addUp

theorem sumsExactly (h : LedgerSized is) : SumsExactly is := fun _ hnodup hsub =>
  (h.part (List.subperm_of_subset hnodup hsub)).addUp

/-- Amounts can be taken off an amount of a ledger. -/
theorem foldlM_sub (h : LedgerSized is) {a : Money} (ha : a.LedgerSized) :
    ∃ m, (is.map (·.amount)).foldlM Money.sub a = .ok m ∧ m.units = a.units - sumUnits is := by
  obtain ⟨m, hm, hunits⟩ := h.foldlM Money.exact_sub ha
  exact ⟨m, hm, by rw [hunits]; omega⟩

theorem subtracts {r : Readjustment} (h : LedgerSized is) (hr : r.amount.LedgerSized) :
    r.Subtracts is := by
  have hpaid : LedgerSized (is.filter fun i => i.status = .paid) := h.sublist List.filter_sublist
  exact ⟨hpaid.foldlM_sub hr, hpaid.addUp⟩

end LedgerSized

end Invoice

/-! ## Selecting with numbers -/

namespace Selection

open Invoice (eligible worth AddsOnto LedgerSized)

variable {active : List Ident} {target : Money} {is : List Invoice}

/-- Takes invoices as selecting does, but with numbers, which add up whatever their size. -/
def weigh (active : List Ident) (target : Money) :
    ℚ → List Invoice → Except LedgerError (List Ident × ℚ)
  | sum, [] => .ok ([], sum)
  | sum, i :: rest =>
    match i.status with
    | .notFinal => .error (.consistency (.notFinal i.id))
    | .paid => .error (.consistency (.alreadyPaid i.id))
    | .cancelled => weigh active target sum rest
    | .notPaid =>
      if i.id ∈ active then weigh active target sum rest
      else if target.value < sum + i.amount.value then .error (.amount (.overshoot target i.id))
      else if sum + i.amount.value = target.value then .ok ([i.id], sum + i.amount.value)
      else (weigh active target (sum + i.amount.value) rest).map fun taken =>
        (i.id :: taken.1, taken.2)

/-- The loop over amounts ends like that over numbers. -/
def Weighed : Except LedgerError (List Ident × ℚ) → Except Failure (List Ident × Money) → Prop
  | .error e, r => r = .error (.refused e)
  | .ok (ids, sum), r => ∃ m, r = .ok (ids, m) ∧ m.value = sum

/-- **Going through invoices**, amounts decide like numbers as long as they add up. -/
theorem gather_weighed {total : Money} (hadds : AddsOnto total (eligible active is)) :
    Weighed (weigh active target total.value is) (gather active target total is) := by
  induction is generalizing total with
  | nil => exact ⟨total, rfl, rfl⟩
  | cons i rest ih =>
    unfold gather weigh
    cases hstatus : i.status with
    | notFinal => rfl
    | paid => rfl
    | cancelled =>
      rw [Invoice.eligible_cons_of_not (fun h => by simp [h.1] at hstatus)] at hadds
      exact ih hadds
    | notPaid =>
      by_cases hactive : i.id ∈ active
      · rw [Invoice.eligible_cons_of_not (fun h => h.2 hactive)] at hadds
        simp only [hactive, if_true, List.contains_iff_mem]
        exact ih hadds
      rw [Invoice.eligible_cons_of ⟨hstatus, hactive⟩] at hadds
      obtain ⟨total', hadd, hunits, hadds_rest⟩ := hadds.cons
      have hvalue : total'.value = total.value + i.amount.value := Money.value_eq_of_units (by
        rw [hunits, Int.cast_add, Money.units_cast, Money.units_cast, add_mul])
      simp only [hactive, if_false, List.contains_iff_mem, hadd, ← hvalue]
      by_cases hover : target < total'
      · rw [if_pos hover, if_pos (Money.value_lt_iff.2 hover)]
        rfl
      rw [if_neg hover, if_neg (mt Money.value_lt_iff.1 hover)]
      by_cases hreaches : total' ≈ target
      · rw [if_pos hreaches, if_pos (Money.value_eq_iff.2 hreaches)]
        exact ⟨total', rfl, rfl⟩
      rw [if_neg hreaches, if_neg (mt Money.value_eq_iff.1 hreaches)]
      -- the rest is taken behind the invoice
      have hrest := ih hadds_rest
      cases hweigh : weigh active target total'.value rest with
      | error e =>
        rw [hweigh] at hrest
        rw [show gather active target total' rest = .error (.refused e) from hrest]
        rfl
      | ok taken =>
        rw [hweigh] at hrest
        obtain ⟨m, hm, hmvalue⟩ := hrest
        rw [hm]
        exact ⟨m, rfl, hmvalue⟩

/-- Numbers that stay short of the target are those of all invoices that may be taken. -/
theorem weigh_short {sum q : ℚ} {ids : List Ident} (h : weigh active target sum is = .ok (ids, q))
    (hshort : q < target.value) : q = sum + worth (eligible active is) := by
  induction is generalizing sum q ids with
  | nil =>
    cases h
    exact (add_zero _).symm
  | cons i rest ih =>
    unfold weigh at h
    split at h
    next => cases h
    next => cases h
    next hstatus =>
      rw [Invoice.eligible_cons_of_not (fun he => by simp [he.1] at hstatus)]
      exact ih h hshort
    next hstatus =>
      split at h
      next hactive =>
        rw [Invoice.eligible_cons_of_not (fun he => he.2 hactive)]
        exact ih h hshort
      next hactive =>
        rw [Invoice.eligible_cons_of ⟨hstatus, hactive⟩, Invoice.worth_cons, ← add_assoc]
        split at h
        next => cases h
        next =>
          split at h
          next hreaches =>
            cases h
            exact absurd hreaches (ne_of_lt hshort)
          next =>
            cases hrest : weigh active target (sum + i.amount.value) rest with
            | error e =>
              rw [hrest] at h
              cases h
            | ok taken =>
              rw [hrest] at h
              cases h
              exact ih hrest hshort

/-- A selection ends as the loop over numbers says: it is refused as this is, or over the sum that it
reached, or it takes what this takes. -/
def Judged (target : Money) :
    Except LedgerError (List Ident × ℚ) → Except Failure (List Ident) → Prop
  | .error e, r => r = .error (.refused e)
  | .ok (ids, sum), r =>
    if sum < target.value then
      ∃ m, m.value = sum ∧ r = .error (.refused (.amount (.shortfall target m)))
    else if ids = [] then r = .error (.refused (.amount .nothingToSubmit))
    else r = .ok ids

/-- **Selecting from a ledger** compares true sums with the target. -/
theorem select_judged (h : LedgerSized is) (active : List Ident) (target : Money) :
    Judged target (weigh active target 0 is) (select is active target) := by
  have hadds : AddsOnto .zero (eligible active is) :=
    (h.sublist List.filter_sublist).addsUp.onto_zero
  have hgather : Weighed (weigh active target Money.zero.value is) (gather active target .zero is) :=
    gather_weighed hadds
  rw [Money.value_zero] at hgather
  unfold select
  cases hweigh : weigh active target 0 is with
  | error e =>
    rw [hweigh] at hgather
    rw [show gather active target .zero is = .error (.refused e) from hgather]
    rfl
  | ok taken =>
    obtain ⟨ids, sum⟩ := taken
    rw [hweigh] at hgather
    obtain ⟨m, hm, rfl⟩ := hgather
    rw [hm]
    show Judged target (.ok (ids, m.value))
      (if m < target then .error (.refused (.amount (.shortfall target m)))
        else if ids.isEmpty then .error (.refused (.amount .nothingToSubmit)) else .ok ids)
    by_cases hshort : m < target
    · rw [if_pos hshort]
      exact (if_pos (Money.value_lt_iff.2 hshort)).mpr ⟨m, rfl, rfl⟩
    · rw [if_neg hshort]
      refine (if_neg (mt Money.value_lt_iff.1 hshort)).mpr ?_
      cases ids with
      | nil => rfl
      | cons id ids => rfl

/-- A selection from a ledger that does not succeed is refused. -/
theorem select_refused (h : LedgerSized is) {e : Failure}
    (hselect : select is active target = .error e) : ∃ k, e = .refused k := by
  have hjudged := select_judged h active target
  rw [hselect] at hjudged
  cases hweigh : weigh active target 0 is with
  | error k =>
    rw [hweigh] at hjudged
    cases hjudged
    exact ⟨k, rfl⟩
  | ok taken =>
    rw [hweigh] at hjudged
    dsimp only [Judged] at hjudged
    split at hjudged
    · obtain ⟨m, -, hm⟩ := hjudged
      cases hm
      exact ⟨_, rfl⟩
    · split at hjudged
      · cases hjudged
        exact ⟨_, rfl⟩
      · cases hjudged

end Selection

/-! ## Settling -/

namespace Workflow.Settling

variable {is : List Invoice}

/-- Settling fails only over an invoice that is not final or already paid, if the amounts add up. -/
theorem foldlM_cases (st : Settling)
    (hadds : Invoice.AddsOnto st.total (Invoice.unpaidAmong is)) :
    (∃ st', is.foldlM Settling.add st = .ok st') ∨
      ∃ cause, is.foldlM Settling.add st = .error (.refused (.consistency cause)) ∧
        ∃ i ∈ is, i.Blocking := by
  induction is generalizing st with
  | nil => exact .inl ⟨st, rfl⟩
  | cons i rest ih =>
    -- what follows a first invoice that does not stop
    have behind {mid : Settling} (hadd : st.add i = .ok mid)
        (hrest : Invoice.AddsOnto mid.total (Invoice.unpaidAmong rest)) :
        (∃ st', (i :: rest).foldlM Settling.add st = .ok st') ∨
          ∃ cause, (i :: rest).foldlM Settling.add st = .error (.refused (.consistency cause)) ∧
            ∃ j ∈ i :: rest, j.Blocking := by
      rw [List.foldlM_cons, hadd]
      rcases ih mid hrest with hok | ⟨cause, hcause, j, hj, hblocking⟩
      · exact .inl hok
      · exact .inr ⟨cause, hcause, j, List.mem_cons_of_mem i hj, hblocking⟩
    cases hstatus : i.status with
    | notFinal =>
      refine .inr ⟨.notFinal i.id, ?_, i, List.mem_cons_self, .inl hstatus⟩
      simp only [List.foldlM_cons, add, hstatus]
      rfl
    | paid =>
      refine .inr ⟨.alreadyPaid i.id, ?_, i, List.mem_cons_self, .inr hstatus⟩
      simp only [List.foldlM_cons, add, hstatus]
      rfl
    | cancelled =>
      rw [Invoice.unpaidAmong_cons_of_ne (by simp [hstatus])] at hadds
      exact behind (add_eq_ok_iff.2 (.inl ⟨hstatus, rfl⟩)) hadds
    | notPaid =>
      rw [Invoice.unpaidAmong_cons_of_notPaid hstatus] at hadds
      obtain ⟨total, htotal, -, hrest⟩ := hadds.cons
      have hadd : st.add i = .ok ⟨st.payable ++ [i.id], total, _⟩ :=
        add_eq_ok_iff.2 (.inr ⟨hstatus, htotal, rfl, rfl⟩)
      exact behind hadd hrest

/-- **Settling invoices of a ledger** comes to what the unpaid ones are worth, or it stops at an invoice
that is not final or already paid. -/
theorem settles (h : Invoice.LedgerSized is) :
    (∃ st, is.foldlM Settling.add {} = .ok st ∧
        st.total.value = Invoice.worth (Invoice.unpaidAmong is)) ∨
      ∃ cause, is.foldlM Settling.add {} = .error (.refused (.consistency cause)) ∧
        ∃ i ∈ is, i.Blocking := by
  have hunpaid : Invoice.LedgerSized (Invoice.unpaidAmong is) :=
    h.sublist (Invoice.unpaidAmong_sublist is)
  rcases foldlM_cases {} hunpaid.addsUp.onto_zero with ⟨st, hst⟩ | hstops
  · obtain ⟨-, htotal, -⟩ := foldlM_eq_ok_iff.1 hst
    exact .inl ⟨st, hst, hunpaid.value_eq htotal⟩
  · exact .inr hstops

end Workflow.Settling

end TeamLedger
