/-
What one team owes another for an order.

The invoices of an order between two teams come in two directions, and a
readjustment looks at one of them: it takes the paid invoices off its target,
cancels the open ones, and stores the difference as one invoice in the direction
that its sign tells. Here this is said of tables only (`Readjustment.Leaves`).
The rows written have different ids, so each row is as it was or as it was
written, and what is open and what is paid afterwards can be read off, in either
direction.

The two directions part. Forward, everything open was found and cancelled, so
that what is open is the new invoice and nothing else. Backward nothing was
found, and a new invoice comes on top of what is there.
-/
import Mathlib.Data.List.Nodup
import TeamLedger.Proofs.Readjusting

set_option autoImplicit false

namespace TeamLedger

/-! ## Signs of amounts -/

namespace Money

theorem isZero_iff {a : Money} : a.isZero = true ↔ a.units = 0 := by
  have scale_ne : (10 : Int) ^ (28 - a.scale) ≠ 0 := Int.pow_ne_zero (by decide)
  simp only [isZero, units, beq_iff_eq, Int.mul_eq_zero, scale_ne, or_false]

theorem isNegative_iff {a : Money} : a.isNegative = true ↔ a.units < 0 := by
  have scale_pos : (0 : Int) < 10 ^ (28 - a.scale) := Int.pow_pos (by decide)
  simp only [isNegative, units, decide_eq_true_eq]
  constructor
  · exact fun h => Int.mul_neg_of_neg_of_pos h scale_pos
  · intro h
    by_contra hn
    exact absurd h (Int.not_lt.2 (Int.mul_nonneg (Int.not_lt.1 hn) (Int.le_of_lt scale_pos)))

/-- Without its sign an amount is worth as much, or its opposite. -/
theorem units_abs (a : Money) : a.abs.units = if a.units < 0 then -a.units else a.units := by
  have natAbs_eq : (a.mantissa.natAbs : Int) = if a.mantissa < 0 then -a.mantissa else a.mantissa := by
    split <;> omega
  have sign_iff : a.mantissa < 0 ↔ a.units < 0 := by
    rw [← isNegative_iff, isNegative, decide_eq_true_eq]
  show (a.mantissa.natAbs : Int) * 10 ^ (28 - a.scale) = _
  rw [natAbs_eq]
  by_cases h : a.mantissa < 0
  · rw [if_pos h, if_pos (sign_iff.1 h), Int.neg_mul]
    rfl
  · rw [if_neg h, if_neg fun hn => h (sign_iff.2 hn)]
    rfl

end Money

theorem Invoice.sumUnits_perm {is js : List Invoice} (h : is.Perm js) : sumUnits is = sumUnits js := by
  induction h with
  | nil => rfl
  | cons i _ ih => exact congrArg (i.amount.units + ·) ih
  | swap i j is => exact Int.add_left_comm ..
  | trans _ _ ih ih' => exact ih.trans ih'

/-- A list is worth what one part of it and the other are. -/
theorem Invoice.sumUnits_filter_add (is : List Invoice) (p : Invoice → Bool) :
    sumUnits (is.filter (!p ·)) + sumUnits (is.filter p) = sumUnits is := by
  induction is with
  | nil => rfl
  | cons i is ih => cases hi : p i <;> simp [hi, sumUnits_cons, ← ih] <;> omega

/-! ## The invoices of an order between two teams -/

namespace Invoice

/-- What the one team owes the other for the order. -/
def Between (a b order : Ident) (i : Invoice) : Prop :=
  i.fromTeam = a ∧ i.toTeam = b ∧ i.orderId = some order

instance (a b order : Ident) (i : Invoice) : Decidable (i.Between a b order) :=
  inferInstanceAs (Decidable (_ ∧ _ ∧ _))

/-- What is owed one way is not owed the other way. -/
theorem Between.ne_back {a b order order' : Ident} {i : Invoice} (h : i.Between a b order)
    (hne : a ≠ b) : ¬ i.Between b a order' :=
  fun hback => hne (h.1.symm.trans hback.1)

end Invoice

namespace Tables

variable (t : Tables) (a b order : Ident)

/-- The invoices of an order from one team to another, by id. -/
def between : List Invoice := t.invoices.values.filter fun i => i.Between a b order

/-- Those of them that are open. -/
def openBetween : List Invoice := (t.between a b order).filter fun i => i.Open

/-- Those of them that are paid. -/
def paidBetween : List Invoice := (t.between a b order).filter fun i => i.status = .paid

variable {t a b order}

theorem mem_between (ht : t.Keyed) {i : Invoice} :
    i ∈ t.between a b order ↔ t.invoices.get? i.id = some i ∧ i.Between a b order := by
  simp only [between, List.mem_filter, decide_eq_true_eq, ht.invoices.mem_values_iff]

theorem mem_openBetween (ht : t.Keyed) {i : Invoice} : i ∈ t.openBetween a b order ↔
    t.invoices.get? i.id = some i ∧ i.Between a b order ∧ i.Open := by
  simp only [openBetween, List.mem_filter, decide_eq_true_eq, mem_between ht, and_assoc]

theorem mem_paidBetween (ht : t.Keyed) {i : Invoice} : i ∈ t.paidBetween a b order ↔
    t.invoices.get? i.id = some i ∧ i.Between a b order ∧ i.status = .paid := by
  simp only [paidBetween, List.mem_filter, decide_eq_true_eq, mem_between ht, and_assoc]

theorem nodup_between (ht : t.Keyed) : ((t.between a b order).map (·.id)).Nodup :=
  ht.invoices.nodup_map.sublist (List.filter_sublist.map _)

theorem nodup_openBetween (ht : t.Keyed) : (t.openBetween a b order).Nodup :=
  List.Nodup.of_map _ ((nodup_between ht).sublist (List.filter_sublist.map _))

theorem nodup_paidBetween (ht : t.Keyed) : (t.paidBetween a b order).Nodup :=
  List.Nodup.of_map _ ((nodup_between ht).sublist (List.filter_sublist.map _))

end Tables

namespace Query

/-- The invoices of an order from one team to another, locked. -/
def ofPair (a b order : Ident) : Query .invoice :=
  build true (.cons (.fromTeam a) (.cons (.toTeam b) (.cons (.orderId order) .nil)))

theorem ofPair_eq {a b order : Ident} (ha : a ≠ 0) (hb : b ≠ 0) (horder : order ≠ 0) :
    ofPair a b order = ⟨JoinSet.empty.insert .invoice .inner,
      [.fromTeam a, .toTeam b, .orderId order], true⟩ := by
  simp only [ofPair, build, follow, take, filterId, if_neg ha, if_neg hb, if_neg horder, filter, join,
    start]
  -- the table of the conditions is the root itself
  refine congrArg (fun tables => (⟨tables, [.fromTeam a, .toTeam b, .orderId order], true⟩ :
    Query .invoice)) (?_ : (((JoinSet.empty.insert .invoice .inner).insert .invoice .inner).insert
      .invoice .inner).insert .invoice .inner = JoinSet.empty.insert .invoice .inner)
  decide

theorem select_ofPair {a b order : Ident} (ha : a ≠ 0) (hb : b ≠ 0) (horder : order ≠ 0) (t : Tables) :
    (ofPair a b order).select t = t.between a b order := by
  rw [ofPair_eq ha hb horder]
  have plan_eq (filters : List Filter) :
      (⟨JoinSet.empty.insert .invoice .inner, filters, true⟩ : Query .invoice).plan = [] := by
    show (JoinSet.empty.insert .invoice .inner).walk 6 [.invoice] [.invoice] = _
    decide
  refine List.filter_congr fun i _ => ?_
  rw [matched, plan_eq, Bool.eq_iff_iff, decide_eq_true_eq]
  simp [Joined.joinAll, Joined.ofRoot, Joined.meets, Invoice.Between]

end Query

/-! ## What a readjustment leaves -/

namespace Readjustment

/-- A readjustment for an order, between two different teams. Zero is no id. -/
structure Ordered (r : Readjustment) (order : Ident) : Prop where
  fromTeam_ne : r.fromTeam ≠ 0
  toTeam_ne : r.toTeam ≠ 0
  apart : r.fromTeam ≠ r.toTeam
  orderId : r.orderId = some order
  order_ne : order ≠ 0

/-- What is stored for a balance: nothing if there is none, otherwise one unpaid invoice over its
amount, in the direction of its sign. -/
inductive Stores (r : Readjustment) (order : Ident) (balance : Int) : List Invoice → Prop
  | nothing (h : balance = 0) : Stores r order balance []
  | forward (i : Invoice) (h : 0 < balance) (status : i.status = .notPaid)
      (amount : i.amount.units = balance) (between : i.Between r.fromTeam r.toTeam order) :
      Stores r order balance [i]
  | backward (i : Invoice) (h : balance < 0) (status : i.status = .notPaid)
      (amount : i.amount.units = -balance) (between : i.Between r.toTeam r.fromTeam order) :
      Stores r order balance [i]

/-- What the paid invoices leave of the target. -/
def balance (r : Readjustment) (order : Ident) (t : Tables) : Int :=
  r.amount.units - Invoice.sumUnits (t.paidBetween r.fromTeam r.toTeam order)

/-- What is written: the open invoices of the working set, cancelled, and then those that are new. -/
def rows (set added : List Invoice) : List Invoice :=
  (set.filter fun i => i.Open).map Invoice.cancel ++ added

/-- The second tables are the first ones after a readjustment of all invoices of the order. -/
structure Leaves (r : Readjustment) (order : Ident) (t : Tables) (set added : List Invoice) (u : Tables) :
    Prop where
  found : set.Perm (t.between r.fromTeam r.toTeam order)
  stores : r.Stores order (r.balance order t) added
  fresh : ∀ i ∈ added, t.invoices.get? i.id = none
  tables : u = t.putAll ((rows set added).map .invoice)

variable {r : Readjustment} {order : Ident} {t u : Tables} {set added : List Invoice} {i : Invoice}

theorem Stores.unpaid {balance : Int} (h : r.Stores order balance added) (hi : i ∈ added) :
    i.status = .notPaid := by
  cases h with
  | nothing => cases hi
  | forward j _ status | backward j _ status =>
    cases List.mem_singleton.1 hi
    exact status

namespace Leaves

theorem keyed (h : r.Leaves order t set added u) (ht : t.Keyed) : u.Keyed := by
  rw [h.tables]
  exact ht.putAll _

/-- What is cancelled was there, open. -/
theorem mem_cancelled (h : r.Leaves order t set added u) (ht : t.Keyed)
    (hi : i ∈ (set.filter fun i => i.Open).map Invoice.cancel) :
    ∃ j, i = j.cancel ∧ t.invoices.get? j.id = some j ∧
      j.Between r.fromTeam r.toTeam order ∧ j.Open := by
  obtain ⟨j, hj, rfl⟩ := List.mem_map.1 hi
  obtain ⟨hj, hopen⟩ := List.mem_filter.1 hj
  obtain ⟨hthere, hbetween⟩ := (Tables.mem_between ht).1 (h.found.mem_iff.1 hj)
  exact ⟨j, rfl, hthere, hbetween, by simpa using hopen⟩

/-- The rows written have different ids. -/
theorem nodup_rows (h : r.Leaves order t set added u) (ht : t.Keyed) :
    ((rows set added).map (·.id)).Nodup := by
  have old_ids : (((set.filter fun i => i.Open).map Invoice.cancel).map (·.id)).Nodup := by
    rw [List.map_map]
    refine List.Nodup.sublist (List.filter_sublist.map _) ?_
    exact (h.found.map _).nodup_iff.2 (Tables.nodup_between ht)
  have new_ids : (added.map (·.id)).Nodup := by
    cases h.stores with
    | nothing => exact List.nodup_nil
    | forward | backward => exact List.nodup_singleton _
  unfold rows
  rw [List.map_append]
  refine old_ids.append new_ids fun id hold hnew => ?_
  -- there is no row yet under the id of a new one
  obtain ⟨i, hi, rfl⟩ := List.mem_map.1 hold
  obtain ⟨j, hj, hid⟩ := List.mem_map.1 hnew
  obtain ⟨k, rfl, hk, -⟩ := h.mem_cancelled ht hi
  have hnone := h.fresh j hj
  rw [show j.id = k.id from hid] at hnone
  cases hk.symm.trans hnone

/-- **A row afterwards** is new, or was cancelled, or is what it was. An open invoice of the direction
that the readjustment looks at is never what it was. -/
theorem get?_iff (h : r.Leaves order t set added u) (ht : t.Keyed) :
    u.invoices.get? i.id = some i ↔ i ∈ added ∨
      (∃ j, i = j.cancel ∧ t.invoices.get? j.id = some j ∧
        j.Between r.fromTeam r.toTeam order ∧ j.Open) ∨
      t.invoices.get? i.id = some i ∧ ¬ (i.Between r.fromTeam r.toTeam order ∧ i.Open) := by
  rw [h.tables, Tables.get?_putAll_invoices (h.nodup_rows ht)]
  constructor
  · rintro (⟨hi, -⟩ | ⟨hi, hne⟩)
    · rcases List.mem_append.1 hi with hi | hi
      · exact .inr (.inl (h.mem_cancelled ht hi))
      · exact .inl hi
    · refine .inr (.inr ⟨hi, fun ⟨hbetween, hopen⟩ => ?_⟩)
      have hset := h.found.mem_iff.2 ((Tables.mem_between ht).2 ⟨hi, hbetween⟩)
      refine hne i.cancel (List.mem_append_left _ ?_) rfl
      exact List.mem_map_of_mem (List.mem_filter.2 ⟨hset, by simpa using hopen⟩)
  · rintro (hi | ⟨j, rfl, hj, hbetween, hopen⟩ | ⟨hi, hnot⟩)
    · exact .inl ⟨List.mem_append_right _ hi, rfl⟩
    · have hset := h.found.mem_iff.2 ((Tables.mem_between ht).2 ⟨hj, hbetween⟩)
      refine .inl ⟨List.mem_append_left _ ?_, rfl⟩
      exact List.mem_map_of_mem (List.mem_filter.2 ⟨hset, by simpa using hopen⟩)
    · refine .inr ⟨hi, fun k hk hid => ?_⟩
      rcases List.mem_append.1 hk with hk | hk
      · obtain ⟨j, rfl, hj, hopen⟩ := h.mem_cancelled ht hk
        rw [show j.id = i.id from hid] at hj
        cases hi.symm.trans hj
        exact hnot hopen
      · have hnone := h.fresh k hk
        rw [hid] at hnone
        cases hi.symm.trans hnone

/-- Forward only what is new is open. -/
theorem mem_open_forward (h : r.Leaves order t set added u) (ht : t.Keyed) :
    i ∈ u.openBetween r.fromTeam r.toTeam order ↔
      i ∈ added ∧ i.Between r.fromTeam r.toTeam order := by
  rw [Tables.mem_openBetween (h.keyed ht), h.get?_iff ht]
  constructor
  · rintro ⟨hi | ⟨j, rfl, -⟩ | ⟨-, hnot⟩, hbetween, hopen⟩
    · exact ⟨hi, hbetween⟩
    · exact absurd hopen j.not_open_cancel
    · exact absurd ⟨hbetween, hopen⟩ hnot
  · rintro ⟨hi, hbetween⟩
    exact ⟨.inl hi, hbetween, .inr (h.stores.unpaid hi)⟩

/-- Backward what is new comes on top of what was open. -/
theorem mem_open_backward (h : r.Leaves order t set added u) (ht : t.Keyed)
    (hr : r.Ordered order) : i ∈ u.openBetween r.toTeam r.fromTeam order ↔
      i ∈ added ∧ i.Between r.toTeam r.fromTeam order ∨
        i ∈ t.openBetween r.toTeam r.fromTeam order := by
  rw [Tables.mem_openBetween (h.keyed ht), Tables.mem_openBetween ht, h.get?_iff ht]
  constructor
  · rintro ⟨hi | ⟨j, rfl, -⟩ | ⟨hi, -⟩, hbetween, hopen⟩
    · exact .inl ⟨hi, hbetween⟩
    · exact absurd hopen j.not_open_cancel
    · exact .inr ⟨hi, hbetween, hopen⟩
  · rintro (⟨hi, hbetween⟩ | ⟨hi, hbetween, hopen⟩)
    · exact ⟨.inl hi, hbetween, .inr (h.stores.unpaid hi)⟩
    · exact ⟨.inr (.inr ⟨hi, fun h => hbetween.ne_back hr.apart.symm h.1⟩), hbetween, hopen⟩

/-- The same invoices are paid as before. -/
theorem paid_perm (h : r.Leaves order t set added u) (ht : t.Keyed) :
    (u.paidBetween r.fromTeam r.toTeam order).Perm (t.paidBetween r.fromTeam r.toTeam order) := by
  refine (List.perm_ext_iff_of_nodup (Tables.nodup_paidBetween (h.keyed ht))
    (Tables.nodup_paidBetween ht)).2 fun i => ?_
  rw [Tables.mem_paidBetween (h.keyed ht), Tables.mem_paidBetween ht, h.get?_iff ht]
  constructor
  · rintro ⟨hi | ⟨j, rfl, -⟩ | ⟨hi, -⟩, hbetween, hpaid⟩
    · cases (h.stores.unpaid hi).symm.trans hpaid
    · cases hpaid
    · exact ⟨hi, hbetween, hpaid⟩
  · rintro ⟨hi, hbetween, hpaid⟩
    exact ⟨.inr (.inr ⟨hi, fun h => h.2.not_paid hpaid⟩), hbetween, hpaid⟩

theorem balance_eq (h : r.Leaves order t set added u) (ht : t.Keyed) :
    r.balance order u = r.balance order t := by
  unfold balance
  rw [Invoice.sumUnits_perm (h.paid_perm ht)]

/-- The invoices of the order are still there. -/
theorem between_ne_nil (h : r.Leaves order t set added u) (ht : t.Keyed)
    (hne : t.between r.fromTeam r.toTeam order ≠ []) :
    u.between r.fromTeam r.toTeam order ≠ [] := by
  obtain ⟨i, hi⟩ := List.exists_mem_of_ne_nil _ hne
  obtain ⟨hthere, hbetween⟩ := (Tables.mem_between ht).1 hi
  by_cases hopen : i.Open
  · refine List.ne_nil_of_mem (a := i.cancel) ((Tables.mem_between (h.keyed ht)).2 ⟨?_, hbetween⟩)
    exact (h.get?_iff ht).2 (.inr (.inl ⟨i, rfl, hthere, hbetween, hopen⟩))
  · refine List.ne_nil_of_mem (a := i) ((Tables.mem_between (h.keyed ht)).2 ⟨?_, hbetween⟩)
    exact (h.get?_iff ht).2 (.inr (.inr ⟨hthere, fun h => hopen h.2⟩))

end Leaves

end Readjustment

/-- For a balance there is one unpaid invoice of the order over it, and nothing else is open; if the
balance is not above zero nothing is open at all. -/
def Tables.Owes (t : Tables) (a b order : Ident) (balance : Int) : Prop :=
  (0 < balance → ∃ i, t.openBetween a b order = [i] ∧ i.status = .notPaid ∧
    i.amount.units = balance) ∧
  (balance ≤ 0 → t.openBetween a b order = [])

/-- **One readjustment settles its direction.** -/
theorem Readjustment.Leaves.owes {r : Readjustment} {order : Ident} {t u : Tables}
    {set added : List Invoice} (h : r.Leaves order t set added u) (ht : t.Keyed)
    (hr : r.Ordered order) : u.Owes r.fromTeam r.toTeam order (r.balance order t) := by
  have hnodup : (u.openBetween r.fromTeam r.toTeam order).Nodup :=
    Tables.nodup_openBetween (h.keyed ht)
  have hmem (i : Invoice) := h.mem_open_forward ht (i := i)
  constructor
  · intro hpos
    cases h.stores with
    | nothing hzero => omega
    | backward i hneg => omega
    | forward i _ status amount between =>
      refine ⟨i, ?_, status, amount⟩
      refine List.perm_singleton.1 ((List.perm_ext_iff_of_nodup hnodup (List.nodup_singleton i)).2 ?_)
      intro j
      rw [hmem]
      constructor
      · exact fun hj => hj.1
      · intro hj
        cases List.mem_singleton.1 hj
        exact ⟨hj, between⟩
  · intro hle
    refine List.eq_nil_iff_forall_not_mem.2 fun i hi => ?_
    obtain ⟨hadded, hbetween⟩ := (hmem i).1 hi
    cases h.stores with
    | nothing => cases hadded
    | forward j hpos => omega
    | backward j _ _ _ between =>
      cases List.mem_singleton.1 hadded
      exact hbetween.ne_back hr.apart between

end TeamLedger
