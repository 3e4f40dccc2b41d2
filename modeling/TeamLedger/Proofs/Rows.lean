/-
Rows as a finite map.

A table is determined by what `get?` finds in it, because its entries are
sorted: two tables that answer every look-up alike have the same entries. This
is what turns facts about single rows into equations between tables, and it is
used wherever two ways of writing the same rows are compared.

The values of a table are the rows that some id finds, in the order of their
ids. A row under a new id is one more value, and it is the last one if its id is
the greatest. When every row carries the id it is stored under, a row is found
under its own id, and rows with different ids are different entries.
-/
import TeamLedger.Rows

set_option autoImplicit false

namespace TeamLedger

namespace Rows

variable {α : Type}

/-! ## Entries and look-ups -/

/-- An entry is found under its id, and only entries are found. -/
theorem lookup_eq_some_iff {es : List (Ident × α)} (h : es.Pairwise (·.1 < ·.1)) {k : Ident}
    {a : α} : es.lookup k = some a ↔ (k, a) ∈ es := by
  induction es with
  | nil => simp
  | cons e es ih =>
    obtain ⟨he, hes⟩ := List.pairwise_cons.1 h
    rw [lookup_cons, List.mem_cons]
    by_cases hk : k = e.1
    -- the entries behind have greater ids, so this is the only one under `k`
    · have hnone : (k, a) ∉ es := fun hm => absurd (he _ hm) (by rw [hk]; exact Int.lt_irrefl _)
      rw [if_pos hk, Option.some.injEq]
      constructor
      · rintro rfl
        exact .inl (by rw [hk])
      · rintro (rfl | hm)
        · rfl
        · exact absurd hm hnone
    · rw [if_neg hk, ih hes]
      constructor
      · exact .inr
      · rintro (rfl | hm)
        · exact absurd rfl hk
        · exact hm

theorem get?_eq_some_iff {r : Rows α} {k : Ident} {a : α} :
    r.get? k = some a ↔ (k, a) ∈ r.entries :=
  lookup_eq_some_iff r.sorted

/-- The values of a table are the rows that some id finds. -/
theorem mem_values {r : Rows α} {a : α} : a ∈ r.values ↔ ∃ k, r.get? k = some a := by
  simp only [values, List.mem_map, get?_eq_some_iff]
  constructor
  · rintro ⟨⟨k, b⟩, hm, rfl⟩
    exact ⟨k, hm⟩
  · rintro ⟨k, hm⟩
    exact ⟨(k, a), hm, rfl⟩

/-- **Tables are extensional.** Sorted lists with the same members are equal, and `get?` tells the
members. -/
theorem ext_get? {r s : Rows α} (h : ∀ k, r.get? k = s.get? k) : r = s := by
  have mem_iff : ∀ e, e ∈ r.entries ↔ e ∈ s.entries := by
    rintro ⟨k, a⟩
    rw [← get?_eq_some_iff, ← get?_eq_some_iff, h k]
  -- a list in strict order is determined by its members
  have entries_eq : r.entries = s.entries := by
    refine List.Perm.eq_of_pairwise ?_ r.sorted s.sorted ?_
    · intro a b _ _ hab hba
      exact absurd (Int.lt_trans hab hba) (Int.lt_irrefl _)
    · refine (List.perm_ext_iff_of_nodup ?_ ?_).2 mem_iff
      · exact r.sorted.imp fun hlt heq => absurd hlt (by rw [heq]; exact Int.lt_irrefl _)
      · exact s.sorted.imp fun hlt heq => absurd hlt (by rw [heq]; exact Int.lt_irrefl _)
  obtain ⟨_, _⟩ := r
  obtain ⟨_, _⟩ := s
  cases entries_eq
  rfl

/-! ## Values -/

/-- The rows that meet a condition. -/
def filter (r : Rows α) (p : α → Bool) : Rows α :=
  ⟨r.entries.filter fun e => p e.2, r.sorted.filter _⟩

theorem values_filter (r : Rows α) (p : α → Bool) : (r.filter p).values = r.values.filter p := by
  unfold values filter
  rw [List.filter_map]
  rfl

theorem get?_filter (r : Rows α) (p : α → Bool) (k : Ident) :
    (r.filter p).get? k = (r.get? k).filter p := by
  refine Option.ext fun a => ?_
  rw [get?_eq_some_iff, Option.filter_eq_some_iff, get?_eq_some_iff]
  exact List.mem_filter

/-- The rows as a function changes them, each under the id it had. -/
def map {β : Type} (r : Rows α) (f : α → β) : Rows β :=
  ⟨r.entries.map fun e => (e.1, f e.2), List.pairwise_map.2 r.sorted⟩

theorem values_map {β : Type} (r : Rows α) (f : α → β) : (r.map f).values = r.values.map f := by
  unfold values map
  rw [List.map_map, List.map_map]
  rfl

theorem get?_map {β : Type} (r : Rows α) (f : α → β) (k : Ident) :
    (r.map f).get? k = (r.get? k).map f := by
  refine Option.ext fun b => ?_
  rw [get?_eq_some_iff, Option.map_eq_some_iff]
  simp only [map, List.mem_map, get?_eq_some_iff, Prod.mk.injEq, Prod.exists]
  constructor
  · rintro ⟨k, a, ha, rfl, rfl⟩
    exact ⟨a, ha, rfl⟩
  · rintro ⟨a, ha, rfl⟩
    exact ⟨k, a, ha, rfl, rfl⟩

/-- A row under a new greatest id comes last. -/
theorem values_insert_last {r : Rows α} {id : Ident} {a : α}
    (h : ∀ k, (r.get? k).isSome → k < id) : (r.insert id a).values = r.values ++ [a] := by
  have entries_eq : ∀ es : List (Ident × α), (∀ e ∈ es, e.1 < id) →
      insertEntry id a es = es ++ [(id, a)] := by
    intro es hes
    induction es with
    | nil => rfl
    | cons e es ih =>
      have he := hes e List.mem_cons_self
      unfold insertEntry
      rw [if_neg (Int.not_lt.2 (Int.le_of_lt he)), if_neg (Int.ne_of_gt he),
        ih fun e' he' => hes e' (List.mem_cons_of_mem _ he')]
      rfl
  show (insertEntry id a r.entries).map (·.2) = r.entries.map (·.2) ++ [a]
  rw [entries_eq r.entries fun e he => h e.1 (by rw [get?_eq_some_iff.2 he]; rfl), List.map_append]
  rfl

/-- A row under a new id is one row more. -/
theorem values_insert_perm {r : Rows α} {id : Ident} {a : α} (h : r.get? id = none) :
    (r.insert id a).values.Perm (a :: r.values) := by
  have entries_perm : ∀ es : List (Ident × α), (∀ e ∈ es, e.1 ≠ id) →
      (insertEntry id a es).Perm ((id, a) :: es) := by
    intro es hes
    induction es with
    | nil => exact .refl _
    | cons e es ih =>
      unfold insertEntry
      split
      · exact .refl _
      rw [if_neg (hes e List.mem_cons_self).symm]
      exact ((ih fun e' he' => hes e' (List.mem_cons_of_mem _ he')).cons e).trans (.swap ..)
  refine (entries_perm r.entries fun e he hid => ?_).map _
  rw [← hid, get?_eq_some_iff.2 he] at h
  cases h

/-- Two tables without common ids, one laid over the other, have the rows of both. -/
theorem values_overlay_perm {r upper : Rows α}
    (h : ∀ k, (upper.get? k).isSome → r.get? k = none) :
    (r.overlay upper).values.Perm (r.values ++ upper.values) := by
  have entries_perm : ∀ es : List (Ident × α), es.Pairwise (·.1 < ·.1) → ∀ r : Rows α,
      (∀ e ∈ es, r.get? e.1 = none) →
      (es.foldl (fun r e => r.insert e.1 e.2) r).values.Perm (r.values ++ es.map (·.2)) := by
    intro es hes
    induction es with
    | nil =>
      intro r _
      exact .of_eq (List.append_nil _).symm
    | cons e es ih =>
      intro r hr
      obtain ⟨he, hes⟩ := List.pairwise_cons.1 hes
      -- the ids behind are greater, so they are new to the table with the first row as well
      refine (ih hes (r.insert e.1 e.2) fun e' he' => ?_).trans ?_
      · rw [get?_insert, if_neg (Int.ne_of_gt (he e' he'))]
        exact hr e' (List.mem_cons_of_mem _ he')
      · exact ((values_insert_perm (hr e List.mem_cons_self)).append_right _).trans
          List.perm_middle.symm
  refine entries_perm upper.entries upper.sorted r fun e he => h e.1 ?_
  rw [get?_eq_some_iff.2 he]
  rfl

/-- That two tables have no id in common is seen from either of them. -/
theorem apart_symm {r u : Rows α} (h : ∀ k, (r.get? k).isSome → u.get? k = none) (k : Ident)
    (hk : (u.get? k).isSome) : r.get? k = none := by
  refine Option.not_isSome_iff_eq_none.1 fun hused => ?_
  rw [h k hused] at hk
  cases hk

/-! ## Rows that know their ids -/

/-- Every row carries the id it is stored under. -/
def KeyedBy (r : Rows α) (idOf : α → Ident) : Prop := ∀ k a, r.get? k = some a → idOf a = k

namespace KeyedBy

variable {r s : Rows α} {idOf : α → Ident}

theorem empty : (Rows.empty : Rows α).KeyedBy idOf := by
  intro k a h
  simp at h

theorem insert (h : r.KeyedBy idOf) (a : α) : (r.insert (idOf a) a).KeyedBy idOf := by
  intro k b hb
  rw [get?_insert] at hb
  split at hb
  next hk => rw [← Option.some.inj hb, hk]
  next => exact h k b hb

theorem overlay (hr : r.KeyedBy idOf) (hs : s.KeyedBy idOf) : (r.overlay s).KeyedBy idOf := by
  intro k a h
  rw [get?_overlay, Option.or_eq_some_iff] at h
  rcases h with h | ⟨-, h⟩
  · exact hs k a h
  · exact hr k a h

theorem eraseAll (h : r.KeyedBy idOf) (ids : List Ident) : (r.eraseAll ids).KeyedBy idOf := by
  intro k a ha
  rw [get?_eraseAll] at ha
  split at ha
  · simp at ha
  · exact h k a ha

/-- A row of the table is found under its own id. -/
theorem mem_values_iff (h : r.KeyedBy idOf) {a : α} : a ∈ r.values ↔ r.get? (idOf a) = some a := by
  rw [mem_values]
  constructor
  · rintro ⟨k, hk⟩
    rw [h k a hk]
    exact hk
  · exact fun ha => ⟨_, ha⟩

theorem values_map (h : r.KeyedBy idOf) : r.values.map idOf = r.ids := by
  rw [values, ids, List.map_map]
  refine List.map_congr_left fun e he => ?_
  exact h e.1 e.2 (get?_eq_some_iff.2 he)

/-- The entries come by their ids. -/
theorem pairwise_map (h : r.KeyedBy idOf) : (r.values.map idOf).Pairwise (· < ·) := by
  rw [h.values_map, ids, List.pairwise_map]
  exact r.sorted

/-- Different entries of the table have different ids. -/
theorem nodup_map (h : r.KeyedBy idOf) : (r.values.map idOf).Nodup :=
  h.pairwise_map.imp fun hlt => Int.ne_of_lt hlt

end KeyedBy

end Rows

end TeamLedger
