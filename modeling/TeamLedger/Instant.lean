/-
Points in time, and the clock that reads them.

An instant counts seconds from the start of 1970 in universal time and nanoseconds within the
second. A leap second has no number of its own: it is the nanoseconds from `10 ^ 9` on within the
second before it, so the lexicographic order of the two parts is the order in time.

A clock is a value. Every reading is later than all readings before it, and readings are a whole
number of microseconds apart.
-/
import TeamLedger.Power

set_option autoImplicit false

namespace TeamLedger

/-- A point in time. -/
structure Instant where
  /-- Seconds since 1970-01-01T00:00:00Z. -/
  second : Int
  /-- Nanoseconds within the second; from `10 ^ 9` on they lie in a leap second. -/
  nano : Nat
  nano_lt : nano < 2 * 10 ^ 9
deriving DecidableEq, Repr

namespace Instant

/-- The start of a second. -/
def ofSecond (second : Int) : Instant := ⟨second, 0, by decide⟩

instance : Inhabited Instant := ⟨ofSecond 0⟩

instance : LT Instant :=
  ⟨fun a b => a.second < b.second ∨ a.second = b.second ∧ a.nano < b.nano⟩

instance : LE Instant :=
  ⟨fun a b => a.second < b.second ∨ a.second = b.second ∧ a.nano ≤ b.nano⟩

instance (a b : Instant) : Decidable (a < b) :=
  inferInstanceAs (Decidable (a.second < b.second ∨ a.second = b.second ∧ a.nano < b.nano))

instance (a b : Instant) : Decidable (a ≤ b) :=
  inferInstanceAs (Decidable (a.second < b.second ∨ a.second = b.second ∧ a.nano ≤ b.nano))

theorem lt_iff {a b : Instant} :
    a < b ↔ a.second < b.second ∨ a.second = b.second ∧ a.nano < b.nano := Iff.rfl

theorem le_iff {a b : Instant} :
    a ≤ b ↔ a.second < b.second ∨ a.second = b.second ∧ a.nano ≤ b.nano := Iff.rfl

/-- The instant one microsecond later, leap seconds apart. -/
def nextMicrosecond (a : Instant) : Instant :=
  if h : a.nano + 1000 < 10 ^ 9 then ⟨a.second, a.nano + 1000, by omega⟩
  else ofSecond (a.second + 1)

/-- A later microsecond is later. -/
theorem lt_nextMicrosecond (a : Instant) : a < a.nextMicrosecond := by
  unfold nextMicrosecond
  split
  · exact Or.inr ⟨rfl, by simp⟩
  · exact Or.inl (show a.second < a.second + 1 by omega)

end Instant

/-! ## The clock -/

/-- A clock, given by its next reading. -/
structure Clock where
  next : Instant
deriving DecidableEq, Repr

/-- Reads the clock. -/
def Clock.read (c : Clock) : Instant × Clock := (c.next, ⟨c.next.nextMicrosecond⟩)

end TeamLedger
