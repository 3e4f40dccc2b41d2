/-
Tables and changes, row by row.

Every row is stored under its own id, in tables as in changes, and writing and
committing keep it so. What ids are in use is therefore a matter of look-ups, and
so is what two tables have in common: a row that changes do not write is the same
below them and above them.
-/
import TeamLedger.Proofs.Answers

set_option autoImplicit false

namespace TeamLedger

/-! ## Rows under their own ids -/

/-- Every row of the tables carries the id it is stored under. -/
structure Tables.Keyed (t : Tables) : Prop where
  invoices : t.invoices.KeyedBy Invoice.id
  submissions : t.submissions.KeyedBy Submission.id
  logs : t.logs.KeyedBy LogEntry.id
  histories : t.histories.KeyedBy History.id
  limits : t.limits.KeyedBy Limit.id

/-- Every row of the changes carries the id it is stored under. -/
structure Changes.Keyed (c : Changes) : Prop where
  invoices : c.invoices.KeyedBy Invoice.id
  submissions : c.submissions.KeyedBy Submission.id
  logs : c.logs.KeyedBy LogEntry.id
  histories : c.histories.KeyedBy History.id
  limits : c.limits.KeyedBy Limit.id

theorem Tables.Keyed.empty : ({} : Tables).Keyed := ⟨.empty, .empty, .empty, .empty, .empty⟩

theorem Changes.Keyed.empty : ({} : Changes).Keyed := ⟨.empty, .empty, .empty, .empty, .empty⟩

theorem Tables.Keyed.apply {t : Tables} {c : Changes} (ht : t.Keyed) (hc : c.Keyed) :
    (t.apply c).Keyed where
  invoices := ht.invoices.overlay hc.invoices
  submissions := ht.submissions.overlay hc.submissions
  logs := ht.logs.overlay hc.logs
  histories := ht.histories.overlay hc.histories
  limits := (ht.limits.overlay hc.limits).eraseAll _

theorem Changes.Keyed.putAll {c : Changes} (h : c.Keyed) (ps : List Put) : (c.putAll ps).Keyed := by
  induction ps generalizing c with
  | nil => exact h
  | cons p ps ih =>
    refine ih ?_
    obtain ⟨hi, hs, hg, hh, hl⟩ := h
    cases p with
    | invoice i => exact ⟨hi.insert i, hs, hg, hh, hl⟩
    | submission x => exact ⟨hi, hs.insert x, hg, hh, hl⟩
    | link l => exact ⟨hi, hs, hg, hh, hl⟩
    | logEntry e => exact ⟨hi, hs, hg.insert e, hh, hl⟩
    | history h => exact ⟨hi, hs, hg, hh.insert h, hl⟩
    | limit l => exact ⟨hi, hs, hg, hh, hl.insert l⟩
    | dropLimit id => exact ⟨hi, hs, hg, hh, hl.eraseAll _⟩

theorem Tables.Keyed.putAll {t : Tables} (h : t.Keyed) (ps : List Put) : (t.putAll ps).Keyed := by
  induction ps generalizing t with
  | nil => exact h
  | cons p ps ih =>
    refine ih ?_
    obtain ⟨hi, hs, hg, hh, hl⟩ := h
    cases p with
    | invoice i => exact ⟨hi.insert i, hs, hg, hh, hl⟩
    | submission x => exact ⟨hi, hs.insert x, hg, hh, hl⟩
    | link l => exact ⟨hi, hs, hg, hh, hl⟩
    | logEntry e => exact ⟨hi, hs, hg.insert e, hh, hl⟩
    | history h => exact ⟨hi, hs, hg, hh.insert h, hl⟩
    | limit l => exact ⟨hi, hs, hg, hh, hl.insert l⟩
    | dropLimit id => exact ⟨hi, hs, hg, hh, hl.eraseAll _⟩

/-! ## Ids in use -/

/-- The id is that of a row of the tables. -/
def Tables.Uses (t : Tables) (id : Ident) : Prop :=
  (t.invoices.get? id).isSome ∨ (t.submissions.get? id).isSome ∨ (t.logs.get? id).isSome ∨
    (t.histories.get? id).isSome ∨ (t.limits.get? id).isSome

/-- The id is that of a row that was written, or of a limit that was deleted. -/
def Changes.Uses (c : Changes) (id : Ident) : Prop :=
  (c.invoices.get? id).isSome ∨ (c.submissions.get? id).isSome ∨ (c.logs.get? id).isSome ∨
    (c.histories.get? id).isSome ∨ (c.limits.get? id).isSome ∨ id ∈ c.deletedLimits.ids

theorem isSome_or {α : Type} {a b : Option α} (h : (a.or b).isSome) : a.isSome ∨ b.isSome := by
  cases a with
  | some a => exact .inl rfl
  | none => exact .inr h

theorem isSome_get?_insert {α : Type} {r : Rows α} {id k : Ident} {a : α}
    (h : ((r.insert id a).get? k).isSome) : k = id ∨ (r.get? k).isSome := by
  rw [Rows.get?_insert] at h
  split at h
  next hk => exact .inl hk
  next => exact .inr h

/-- Laying changes over tables brings in no other ids. -/
theorem Tables.uses_apply {t : Tables} {c : Changes} {id : Ident} (h : (t.apply c).Uses id) :
    t.Uses id ∨ c.Uses id := by
  have or_of {α : Type} {r upper : Rows α} (h : ((r.overlay upper).get? id).isSome) :
      (upper.get? id).isSome ∨ (r.get? id).isSome := by
    rw [Rows.get?_overlay] at h
    exact isSome_or h
  have limit_of (h : ((t.apply c).limits.get? id).isSome) :
      ((t.limits.overlay c.limits).get? id).isSome := by
    simp only [apply, Rows.get?_eraseAll] at h
    split at h
    · cases h
    · exact h
  unfold Uses Changes.Uses
  rcases h with h | h | h | h | h
  · rcases or_of h with h | h <;> simp [h]
  · rcases or_of h with h | h <;> simp [h]
  · rcases or_of h with h | h <;> simp [h]
  · rcases or_of h with h | h <;> simp [h]
  · rcases or_of (limit_of h) with h | h <;> simp [h]

/-- A write brings in no id but that of its row. -/
theorem Changes.uses_put {c : Changes} {p : Put} {id : Ident} (h : (c.put p).Uses id) :
    p.id? = some id ∨ c.Uses id := by
  cases p with
  | link l => exact .inr h
  | dropLimit k =>
    rcases h with h | h | h | h | h | h
    · exact .inr (.inl h)
    · exact .inr (.inr (.inl h))
    · exact .inr (.inr (.inr (.inl h)))
    · exact .inr (.inr (.inr (.inr (.inl h))))
    · simp only [put, Rows.get?_eraseAll] at h
      split at h
      · cases h
      · exact .inr (.inr (.inr (.inr (.inr (.inl h)))))
    · rcases (mem_ids_insertAll_singleton c.deletedLimits k id).1 h with rfl | h
      · exact .inl rfl
      · exact .inr (.inr (.inr (.inr (.inr (.inr h)))))
  | _ =>
    -- one table has one more row; the others are as they were
    rcases h with h | h | h | h | h | h
    all_goals first
      | rcases isSome_get?_insert h with rfl | h
        · exact .inl rfl
        · refine .inr ?_
          unfold Uses
          simp only [h, true_or, or_true]
      | refine .inr ?_
        unfold Uses
        simp only [put] at h
        simp only [h, true_or, or_true]

theorem Changes.uses_putAll {c : Changes} {ps : List Put} {id : Ident} (h : (c.putAll ps).Uses id) :
    (∃ p ∈ ps, p.id? = some id) ∨ c.Uses id := by
  induction ps generalizing c with
  | nil => exact .inr h
  | cons p ps ih =>
    rcases ih h with ⟨q, hq, hid⟩ | h
    · exact .inl ⟨q, List.mem_cons_of_mem _ hq, hid⟩
    · rcases uses_put h with h | h
      · exact .inl ⟨p, List.mem_cons_self, h⟩
      · exact .inr h

/-- A row that is written again is one of those there. -/
theorem Put.Revises.uses {t : Tables} {p : Put} {id : Ident} (h : p.Revises t)
    (hid : p.id? = some id) : t.Uses id := by
  unfold Tables.Uses
  cases p with
  | link l => cases hid
  | logEntry e | history e => exact h.elim
  | _ =>
    cases Option.some.inj hid
    simp only [Put.Revises] at h
    simp [h]

/-- The payments among changes after writes are the earlier ones and those written. -/
theorem Changes.isSome_histories_putAll {c : Changes} {ps : List Put} {id : Ident}
    (h : ((c.putAll ps).histories.get? id).isSome) :
    (∃ x, Put.history x ∈ ps ∧ x.id = id) ∨ (c.histories.get? id).isSome := by
  induction ps generalizing c with
  | nil => exact .inr h
  | cons p ps ih =>
    rcases ih h with ⟨x, hx, hid⟩ | h
    · exact .inl ⟨x, List.mem_cons_of_mem _ hx, hid⟩
    · cases p with
      | history x =>
        rcases isSome_get?_insert h with rfl | h
        · exact .inl ⟨x, List.mem_cons_self, rfl⟩
        · exact .inr h
      | _ => exact .inr h

/-! ## Rows that two tables share -/

/-- The row is the same in both tables, or missing in both. -/
def Tables.SameRow (t u : Tables) (k : RowKey) : Prop :=
  match k.kind with
  | .invoice => t.invoices.get? k.id = u.invoices.get? k.id
  | .submission => t.submissions.get? k.id = u.submissions.get? k.id
  | .limit => t.limits.get? k.id = u.limits.get? k.id

theorem Tables.SameRow.refl (t : Tables) (k : RowKey) : t.SameRow t k := by
  unfold SameRow
  split <;> rfl

theorem Tables.SameRow.trans {t u v : Tables} {k : RowKey} (h : t.SameRow u k)
    (h' : u.SameRow v k) : t.SameRow v k := by
  unfold SameRow at *
  split at h
  all_goals
    next hk =>
      rw [hk] at h'
      rw [h, h']

/-- A row that changes do not write is seen as it is below them. -/
theorem Tables.sameRow_apply (t : Tables) {c : Changes} {k : RowKey} (h : k ∉ c.written) :
    (t.apply c).SameRow t k := by
  obtain ⟨kind, id⟩ := k
  rw [Changes.mem_written] at h
  cases kind with
  | invoice =>
    show (t.invoices.overlay c.invoices).get? id = _
    rw [Rows.get?_overlay, Option.not_isSome_iff_eq_none.1 h]
    rfl
  | submission =>
    show (t.submissions.overlay c.submissions).get? id = _
    rw [Rows.get?_overlay, Option.not_isSome_iff_eq_none.1 h]
    rfl
  | limit =>
    obtain ⟨hstored, hdeleted⟩ := not_or.1 h
    show ((t.limits.overlay c.limits).eraseAll c.deletedLimits.ids).get? id = _
    rw [Rows.get?_eraseAll, if_neg hdeleted, Rows.get?_overlay,
      Option.not_isSome_iff_eq_none.1 hstored]
    rfl

/-- Where two tables have the same row, they have it under the same changes. -/
theorem Tables.SameRow.apply {t u : Tables} {k : RowKey} (h : t.SameRow u k) (c : Changes) :
    (t.apply c).SameRow (u.apply c) k := by
  obtain ⟨kind, id⟩ := k
  cases kind with
  | invoice =>
    show (t.invoices.overlay c.invoices).get? id = (u.invoices.overlay c.invoices).get? id
    rw [Rows.get?_overlay, Rows.get?_overlay, show t.invoices.get? id = _ from h]
  | submission =>
    show (t.submissions.overlay c.submissions).get? id = (u.submissions.overlay c.submissions).get? id
    rw [Rows.get?_overlay, Rows.get?_overlay, show t.submissions.get? id = _ from h]
  | limit =>
    show ((t.limits.overlay c.limits).eraseAll c.deletedLimits.ids).get? id =
      ((u.limits.overlay c.limits).eraseAll c.deletedLimits.ids).get? id
    rw [Rows.get?_eraseAll, Rows.get?_eraseAll, Rows.get?_overlay, Rows.get?_overlay,
      show t.limits.get? id = _ from h]

/-- A row that `d` writes is seen over it as `d` leaves it, and any other row is not changed by it. -/
theorem Tables.sameRow_after (t : Tables) {c d : Changes} (apart : ∀ k ∈ c.written, k ∉ d.written)
    (k : RowKey) :
    (t.apply d).SameRow t k ∧ ((t.apply d).apply c).SameRow (t.apply c) k ∨
      k ∉ c.written ∧ ((t.apply d).apply c).SameRow (t.apply d) k ∧ (t.apply c).SameRow t k := by
  by_cases hk : k ∈ d.written
  · have hkc : k ∉ c.written := fun hkc => apart k hkc hk
    exact .inr ⟨hkc, Tables.sameRow_apply _ hkc, Tables.sameRow_apply _ hkc⟩
  · have same := t.sameRow_apply hk
    exact .inl ⟨same, same.apply c⟩

/-- The row is new if the session sees none. -/
theorem Tables.eq_none_of_apply {t : Tables} {c : Changes} {id : Ident} :
    ((t.apply c).submissions.get? id = none → t.submissions.get? id = none) ∧
      ((t.apply c).invoices.get? id = none → t.invoices.get? id = none) := by
  refine ⟨fun h => ?_, fun h => ?_⟩
  · rw [show (t.apply c).submissions = t.submissions.overlay c.submissions from rfl,
      Rows.get?_overlay, Option.or_eq_none_iff] at h
    exact h.2
  · rw [show (t.apply c).invoices = t.invoices.overlay c.invoices from rfl,
      Rows.get?_overlay, Option.or_eq_none_iff] at h
    exact h.2

end TeamLedger
