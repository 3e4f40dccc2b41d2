/-
Rows by id, in the order of their ids.

A table is read through `get?`; inserting replaces the row with the same id, and `overlay` replaces
or adds all rows of a second table. Each operation says by one lemma what it does to `get?`, and
that is all the ledger uses of them.
-/
import TeamLedger.Agent

set_option autoImplicit false

namespace TeamLedger

/-- Rows by id, in the order of their ids. -/
structure Rows (α : Type) where
  entries : List (Ident × α)
  sorted : entries.Pairwise (·.1 < ·.1)

namespace Rows

variable {α : Type}

/-- No rows. -/
def empty : Rows α := ⟨[], .nil⟩

instance : Inhabited (Rows α) := ⟨empty⟩

/-- The row with an id. -/
def get? (r : Rows α) (id : Ident) : Option α := r.entries.lookup id

/-- The rows, in order. -/
def values (r : Rows α) : List α := r.entries.map (·.2)

/-- The ids, in order. -/
def ids (r : Rows α) : List Ident := r.entries.map (·.1)

/-! ## Inserting -/

/-- Inserts into sorted entries. -/
def insertEntry (id : Ident) (a : α) : List (Ident × α) → List (Ident × α)
  | [] => [(id, a)]
  | e :: es =>
    if id < e.1 then (id, a) :: e :: es
    else if id = e.1 then (id, a) :: es
    else e :: insertEntry id a es

theorem mem_insertEntry {id : Ident} {a : α} {es : List (Ident × α)} {e : Ident × α}
    (h : e ∈ insertEntry id a es) : e = (id, a) ∨ e ∈ es := by
  induction es with
  | nil => simpa [insertEntry] using h
  | cons e' es ih =>
    unfold insertEntry at h
    split at h
    · simpa using h
    · split at h
      · rcases List.mem_cons.1 h with h | h
        · exact .inl h
        · exact .inr (List.mem_cons_of_mem _ h)
      · rcases List.mem_cons.1 h with h | h
        · exact .inr (h ▸ List.mem_cons_self)
        · exact (ih h).imp (fun h => h) (List.mem_cons_of_mem _)

theorem pairwise_insertEntry (id : Ident) (a : α) {es : List (Ident × α)}
    (h : es.Pairwise (·.1 < ·.1)) : (insertEntry id a es).Pairwise (·.1 < ·.1) := by
  induction es with
  | nil => simp [insertEntry]
  | cons e es ih =>
    obtain ⟨he, hes⟩ := List.pairwise_cons.1 h
    unfold insertEntry
    split
    next hlt =>
      refine List.pairwise_cons.2 ⟨fun x hx => ?_, h⟩
      rcases List.mem_cons.1 hx with rfl | hx
      · exact hlt
      · exact Int.lt_trans hlt (he x hx)
    next hge =>
      split
      next heq => exact List.pairwise_cons.2 ⟨fun x hx => heq ▸ he x hx, hes⟩
      next hne =>
        refine List.pairwise_cons.2 ⟨fun x hx => ?_, ih hes⟩
        rcases mem_insertEntry hx with rfl | hx
        · grind
        · exact he x hx

/-- Adds a row, in place of the one with the same id. -/
def insert (r : Rows α) (id : Ident) (a : α) : Rows α :=
  ⟨insertEntry id a r.entries, pairwise_insertEntry id a r.sorted⟩

theorem lookup_cons (e : Ident × α) (es : List (Ident × α)) (k : Ident) :
    (e :: es).lookup k = if k = e.1 then some e.2 else es.lookup k := by
  obtain ⟨id, a⟩ := e
  by_cases h : k = id
  · simp [h]
  · simp [List.lookup_cons, h, beq_eq_false_iff_ne.2 h]

theorem lookup_insertEntry (id : Ident) (a : α) (es : List (Ident × α)) (k : Ident) :
    (insertEntry id a es).lookup k = if k = id then some a else es.lookup k := by
  induction es with
  | nil => simp only [insertEntry, lookup_cons]
  | cons e es ih =>
    unfold insertEntry
    split
    next => simp only [lookup_cons]
    next => split <;> simp only [lookup_cons, ih] <;> grind

/-- The row that was added is there, and every other row is as before. -/
@[simp] theorem get?_insert (r : Rows α) (id : Ident) (a : α) (k : Ident) :
    (r.insert id a).get? k = if k = id then some a else r.get? k :=
  lookup_insertEntry id a r.entries k

@[simp] theorem get?_empty (k : Ident) : (empty : Rows α).get? k = none := rfl

/-! ## Removing -/

/-- Takes away the rows whose ids are listed. -/
def eraseAll (r : Rows α) (ids : List Ident) : Rows α :=
  ⟨r.entries.filter fun e => !ids.contains e.1, r.sorted.filter _⟩

theorem lookup_filter_key (p : Ident → Bool) (es : List (Ident × α)) (k : Ident) :
    (es.filter fun e => p e.1).lookup k = if p k then es.lookup k else none := by
  induction es with
  | nil => simp
  | cons e es ih => by_cases hp : p e.1 <;> simp [hp, lookup_cons, ih] <;> grind

/-- The listed rows are gone, and every other row is as before. -/
@[simp] theorem get?_eraseAll (r : Rows α) (ids : List Ident) (k : Ident) :
    (r.eraseAll ids).get? k = if k ∈ ids then none else r.get? k := by
  unfold get? eraseAll
  rw [lookup_filter_key fun id => !ids.contains id]
  by_cases h : k ∈ ids <;> simp [h]

/-! ## Laying one table over another -/

/-- The rows of both tables; where both have a row, that of the second. -/
def overlay (r upper : Rows α) : Rows α := upper.entries.foldl (fun r e => r.insert e.1 e.2) r

theorem lookup_eq_none_of_lt {es : List (Ident × α)} {k : Ident} (h : ∀ e ∈ es, k < e.1) :
    es.lookup k = none := by
  induction es with
  | nil => rfl
  | cons e es ih =>
    have he := h e List.mem_cons_self
    rw [lookup_cons, if_neg (by grind)]
    exact ih fun e he => h e (List.mem_cons_of_mem _ he)

theorem get?_foldl_insert {es : List (Ident × α)} (h : es.Pairwise (·.1 < ·.1)) (r : Rows α)
    (k : Ident) :
    (es.foldl (fun r e => r.insert e.1 e.2) r).get? k = (es.lookup k).or (r.get? k) := by
  induction es generalizing r with
  | nil => rfl
  | cons e es ih =>
    obtain ⟨he, hes⟩ := List.pairwise_cons.1 h
    rw [List.foldl_cons, ih hes, get?_insert, lookup_cons]
    by_cases hk : k = e.1
    · have hnone : es.lookup k = none := lookup_eq_none_of_lt fun x hx => hk ▸ he x hx
      simp [hk ▸ hnone, hk]
    · simp [hk]

/-- Where the second table has a row it is that one, and elsewhere the row is as before. -/
@[simp] theorem get?_overlay (r upper : Rows α) (k : Ident) :
    (r.overlay upper).get? k = (upper.get? k).or (r.get? k) :=
  get?_foldl_insert upper.sorted r k

/-! ## The ids there are -/

/-- Exactly the ids that have a row are listed. -/
theorem mem_ids {r : Rows α} {k : Ident} : k ∈ r.ids ↔ (r.get? k).isSome := by
  unfold ids get?
  induction r.entries with
  | nil => simp
  | cons e es ih => rw [lookup_cons, List.map_cons, List.mem_cons, ih]; split <;> simp [*]

end Rows

/-- A set of ids, in order. -/
abbrev IdSet := Rows Unit

namespace IdSet

/-- The set with all ids of a list added. -/
def insertAll (s : IdSet) (ids : List Ident) : IdSet := ids.foldl (fun s id => s.insert id ()) s

/-- The set of the ids in a list. -/
def ofList (ids : List Ident) : IdSet := insertAll .empty ids

theorem mem_ids_insertAll (s : IdSet) (ids : List Ident) (k : Ident) :
    k ∈ (insertAll s ids).ids ↔ k ∈ ids ∨ k ∈ s.ids := by
  unfold insertAll
  induction ids generalizing s with
  | nil => simp
  | cons id ids ih =>
    have hs : k ∈ (s.insert id ()).ids ↔ k = id ∨ k ∈ s.ids := by
      simp only [Rows.mem_ids, Rows.get?_insert]
      split <;> simp [*]
    rw [List.foldl_cons, ih, hs, List.mem_cons]
    grind

/-- The set has the ids of the list. -/
theorem mem_ids_ofList (ids : List Ident) (k : Ident) : k ∈ (ofList ids).ids ↔ k ∈ ids := by
  rw [ofList, mem_ids_insertAll]
  simp [Rows.mem_ids]

end IdSet

end TeamLedger
