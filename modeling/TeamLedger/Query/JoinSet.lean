/-
The tables of a query and the kinds of their joins, in two masks of one bit for each table.

The first kind that is asked for stays: adding a table again changes nothing. So a set behaves as a
finite map from tables to kinds whose entries are never overwritten (`kind?_insert`).
-/
import TeamLedger.Query.Table

set_option autoImplicit false

namespace TeamLedger

/-- The place of a table in a mask. -/
def Table.place : Table → Fin 6
  | invoice => 0
  | link => 1
  | submission => 2
  | history => 3
  | fromTeam => 4
  | toTeam => 5

theorem Table.place_inj {t u : Table} : (t.place : Nat) = u.place ↔ t = u := by
  cases t <;> cases u <;> decide

/-- Tables with the kinds of their joins. -/
structure JoinSet where
  /-- The tables that are in the set. -/
  present : BitVec 6
  /-- Those of them that are joined as left joins. -/
  left : BitVec 6
  present_of_left : ∀ i, left.getLsbD i = true → present.getLsbD i = true
deriving DecidableEq, Repr

namespace JoinSet

/-- No tables. -/
def empty : JoinSet := ⟨0, 0, fun _ h => h⟩

instance : Inhabited JoinSet := ⟨empty⟩

/-- The table is in the set. -/
def contains (s : JoinSet) (t : Table) : Bool := s.present.getLsbD t.place

/-- Adds a table, unless it is in the set already. -/
def insert (s : JoinSet) (t : Table) (kind : JoinKind) : JoinSet :=
  -- the kind asked for first stays
  if s.contains t then s
  else
    { present := s.present ||| BitVec.twoPow 6 t.place
      left := if kind = .left then s.left ||| BitVec.twoPow 6 t.place else s.left
      present_of_left := by
        intro i hi
        have hs := s.present_of_left i
        split at hi <;> grind }

/-- The kind of a table's join; a table that is not there counts as an inner join. -/
def kind (s : JoinSet) (t : Table) : JoinKind :=
  if s.left.getLsbD t.place then .left else .inner

/-- The number of tables. -/
def size (s : JoinSet) : Nat := Table.all.countP s.contains

/-- There are no tables. -/
def isEmpty (s : JoinSet) : Bool := s.present == 0

/-- The tables, in order. -/
def tables (s : JoinSet) : List Table := Table.all.filter s.contains

/-! ## The set as a map -/

/-- The kind of a table's join, if the table is there. -/
def kind? (s : JoinSet) (t : Table) : Option JoinKind :=
  if s.contains t then some (s.kind t) else none

@[simp] theorem kind?_empty (t : Table) : empty.kind? t = none := by
  cases t <;> rfl

theorem contains_insert (s : JoinSet) (t u : Table) (k : JoinKind) :
    (s.insert t k).contains u = (s.contains u || decide (u = t)) := by
  unfold insert
  split
  next h =>
    by_cases hu : u = t
    · subst hu
      simp [h]
    · simp [hu]
  next h =>
    have hp := @Table.place_inj t u
    simp only [contains, BitVec.getLsbD_or, BitVec.getLsbD_twoPow]
    grind

/-- A table that is not in the set is not joined as a left join. -/
theorem left_eq_false {s : JoinSet} {t : Table} (h : s.contains t = false) :
    s.left.getLsbD t.place = false := by
  have ht := s.present_of_left t.place
  unfold contains at h
  grind

/-- The table that was added is there, with the kind that was asked for first, and every other
table is as before. -/
theorem kind?_insert (s : JoinSet) (t u : Table) (k : JoinKind) :
    (s.insert t k).kind? u = if u = t then some ((s.kind? t).getD k) else s.kind? u := by
  unfold kind?
  rw [contains_insert]
  by_cases h : s.contains t = true
  · have hi : s.insert t k = s := by simp [insert, h]
    rw [hi]
    by_cases hu : u = t
    · subst hu
      simp [h]
    · simp [hu]
  · have hl := left_eq_false (by simpa using h)
    have hp := @Table.place_inj t u
    have hk : (s.insert t k).kind u = if u = t then k else s.kind u := by
      simp only [kind, insert, if_neg h]
      cases k <;> grind
    rw [hk]
    by_cases hu : u = t
    · subst hu
      simp [h]
    · simp [hu]

end JoinSet

end TeamLedger
