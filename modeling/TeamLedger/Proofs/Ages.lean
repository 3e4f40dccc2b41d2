/-
The order in which rows are returned.

Invoices come by age, those of the same age by id, and all other rows by id. As
ids do not occur twice, the order is strict; so the rows that are returned
determine the list in which they are returned (`Invoice.eq_of_mem_iff`).
-/
import Mathlib.Data.List.Sort
import TeamLedger.Proofs.Selecting

set_option autoImplicit false

namespace TeamLedger

/-! ## Time -/

namespace Instant

theorem lt_irrefl (a : Instant) : ¬ a < a := by
  rw [lt_iff]
  omega

theorem lt_trans {a b c : Instant} (hab : a < b) (hbc : b < c) : a < c := by
  rw [lt_iff] at *
  omega

/-- Of two instants one is earlier, or they are the same. -/
theorem lt_or_eq_or_gt (a b : Instant) : a < b ∨ a = b ∨ b < a := by
  obtain ⟨second, nano, _⟩ := a
  obtain ⟨second', nano', _⟩ := b
  rw [lt_iff, lt_iff, Instant.mk.injEq]
  dsimp only
  omega

end Instant

/-! ## Invoices -/

namespace Invoice

/-- The first invoice comes before the second one. -/
def Older (a b : Invoice) : Prop := a.created < b.created ∨ a.created = b.created ∧ a.id < b.id

instance (a b : Invoice) : Decidable (a.Older b) :=
  inferInstanceAs (Decidable (a.created < b.created ∨ a.created = b.created ∧ a.id < b.id))

variable {a b c : Invoice}

theorem Older.trans (hab : a.Older b) (hbc : b.Older c) : a.Older c := by
  rcases hab with hab | ⟨hab, hid⟩
  · rcases hbc with hbc | ⟨hbc, -⟩
    · exact .inl (Instant.lt_trans hab hbc)
    · exact .inl (hbc ▸ hab)
  · rcases hbc with hbc | ⟨hbc, hid'⟩
    · exact .inl (hab ▸ hbc)
    · exact .inr ⟨hab.trans hbc, Int.lt_trans hid hid'⟩

theorem Older.irrefl (a : Invoice) : ¬ a.Older a := by
  rintro (h | ⟨-, h⟩)
  · exact Instant.lt_irrefl _ h
  · exact Int.lt_irrefl _ h

instance : Std.Irrefl Older := ⟨Older.irrefl⟩

instance : Std.Antisymm Older := ⟨fun a _ hab hba => (Older.irrefl a (hab.trans hba)).elim⟩

/-- Of two invoices with different ids one comes first. -/
theorem older_or_older (h : a.id ≠ b.id) : a.Older b ∨ b.Older a := by
  rcases Instant.lt_or_eq_or_gt a.created b.created with hlt | heq | hgt
  · exact .inl (.inl hlt)
  · rcases Int.lt_or_gt_of_ne h with hid | hid
    · exact .inl (.inr ⟨heq, hid⟩)
    · exact .inr (.inr ⟨heq.symm, hid⟩)
  · exact .inr (.inl hgt)

/-- For the order it is the same whether an id is smaller or not larger, since ids differ. -/
theorem notYounger_iff (h : a.id ≠ b.id) : a.notYounger b ↔ a.Older b := by
  unfold notYounger Older
  have hid : a.id ≤ b.id ↔ a.id < b.id := ⟨fun hle => lt_of_le_of_ne hle h, Int.le_of_lt⟩
  rw [hid]

theorem insertByAge_sorted {bs : List Invoice} (h : bs.Pairwise Older)
    (hne : ∀ b ∈ bs, a.id ≠ b.id) : (a.insertByAge bs).Pairwise Older := by
  induction bs with
  | nil => exact List.pairwise_singleton _ a
  | cons b bs ih =>
    obtain ⟨hb, hbs⟩ := List.pairwise_cons.1 h
    have hab : a.id ≠ b.id := hne b List.mem_cons_self
    unfold insertByAge
    by_cases hfirst : a.notYounger b
    · rw [if_pos hfirst]
      have holder : a.Older b := (notYounger_iff hab).1 hfirst
      refine List.pairwise_cons.2 ⟨fun c hc => ?_, h⟩
      rcases List.mem_cons.1 hc with rfl | hc
      · exact holder
      · exact holder.trans (hb c hc)
    · rw [if_neg hfirst]
      have holder : b.Older a :=
        (older_or_older hab).resolve_left fun h => hfirst ((notYounger_iff hab).2 h)
      refine List.pairwise_cons.2 ⟨fun c hc => ?_, ih hbs fun c hc => hne c (List.mem_cons_of_mem _ hc)⟩
      rcases List.mem_cons.1 ((insertByAge_perm a bs).mem_iff.1 hc) with rfl | hc
      · exact holder
      · exact hb c hc

/-- **Invoices come oldest first.** -/
theorem oldestFirst_sorted {is : List Invoice} (h : (is.map (·.id)).Nodup) :
    (oldestFirst is).Pairwise Older := by
  induction is with
  | nil => exact .nil
  | cons i is ih =>
    obtain ⟨hi, his⟩ := List.nodup_cons.1 h
    refine insertByAge_sorted (ih his) fun j hj heq => hi (List.mem_map.2 ⟨j, ?_, heq.symm⟩)
    exact (oldestFirst_perm is).mem_iff.1 hj

/-- Invoices in order are given by which ones they are. -/
theorem eq_of_mem_iff {is js : List Invoice} (his : is.Pairwise Older) (hjs : js.Pairwise Older)
    (h : ∀ i, i ∈ is ↔ i ∈ js) : is = js :=
  his.eq_of_mem_iff hjs h

/-- In what order they come does not matter to the order by age. -/
theorem oldestFirst_eq_of_perm {is js : List Invoice} (his : (is.map (·.id)).Nodup)
    (h : is.Perm js) : oldestFirst is = oldestFirst js := by
  have hjs : (js.map (·.id)).Nodup := (h.map _).nodup_iff.1 his
  refine eq_of_mem_iff (oldestFirst_sorted his) (oldestFirst_sorted hjs) fun i => ?_
  rw [(oldestFirst_perm is).mem_iff, (oldestFirst_perm js).mem_iff, h.mem_iff]

/-- Some of the invoices are in order as all of them are. -/
theorem oldestFirst_filter {is : List Invoice} (h : (is.map (·.id)).Nodup) (p : Invoice → Bool) :
    (oldestFirst is).filter p = oldestFirst (is.filter p) := by
  have some_ids : ((is.filter p).map (·.id)).Nodup := h.sublist (List.filter_sublist.map _)
  refine eq_of_mem_iff ((oldestFirst_sorted h).filter _) (oldestFirst_sorted some_ids) fun i => ?_
  rw [List.mem_filter, (oldestFirst_perm is).mem_iff, (oldestFirst_perm (is.filter p)).mem_iff,
    List.mem_filter]

end Invoice

/-! ## All rows -/

/-- The first row comes before the second one. -/
def Root.Before : (root : Root) → root.Row → root.Row → Prop
  | .invoice => Invoice.Older
  | .submission => fun a b => a.id < b.id
  | .history => fun a b => a.id < b.id

/-- **Rows are returned in order**, each of them once. -/
theorem Query.inOrder_sorted {root : Root} (q : Query root) {t : Tables}
    (h : (root.rows t).KeyedBy root.idOf) : (root.inOrder (q.select t)).Pairwise root.Before := by
  have sorted : ((root.rows t).values).Pairwise fun a b => root.idOf a < root.idOf b := by
    unfold Rows.values
    rw [List.pairwise_map]
    refine (root.rows t).sorted.imp_of_mem fun {e e'} he he' hlt => ?_
    rw [h e.1 e.2 (Rows.get?_eq_some_iff.2 he), h e'.1 e'.2 (Rows.get?_eq_some_iff.2 he')]
    exact hlt
  cases root with
  | invoice => exact Invoice.oldestFirst_sorted (Query.nodup_select h)
  | submission => exact sorted.filter _
  | history => exact sorted.filter _

end TeamLedger
