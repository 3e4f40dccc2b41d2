/-
Days and dates are counted alike.

The date of a day exists (`isValid_ofDays`), and is the date with this number of
days before it (`toDays_ofDays`). What carries both is that a day lies within
the year that is found for it (`yearOf_spec`): 400 years have 146097 days, but
leap years are not spread evenly among them, so dividing finds the year only up
to one, in either direction, and then the exact count decides.
-/
import TeamLedger.Instant.Calendar

set_option autoImplicit false

namespace TeamLedger.Instant

/-! ## Years -/

/-- The days of months with the given lengths. -/
def daysOf : List Nat → Nat
  | [] => 0
  | n :: ns => n + daysOf ns

theorem foldl_add_eq (ns : List Nat) (k : Nat) : ns.foldl (· + ·) k = k + daysOf ns := by
  induction ns generalizing k with
  | nil => rfl
  | cons n ns ih => rw [List.foldl_cons, ih, daysOf, Nat.add_assoc]

/-- The next year begins when the days of this one are over. -/
theorem daysBeforeYear_succ (year : Int) :
    daysBeforeYear (year + 1) = daysBeforeYear year + daysOf (monthLengths year) := by
  have fourth : (year + 1 + 3) / 4 = (year + 3) / 4 + if year % 4 = 0 then 1 else 0 := by
    split <;> omega
  have hundredth : (year + 1 + 99) / 100 = (year + 99) / 100 + if year % 100 = 0 then 1 else 0 := by
    split <;> omega
  have fourHundredth :
      (year + 1 + 399) / 400 = (year + 399) / 400 + if year % 400 = 0 then 1 else 0 := by
    split <;> omega
  have of_hundredth : year % 100 = 0 → year % 4 = 0 := by omega
  have of_fourHundredth : year % 400 = 0 → year % 100 = 0 := by omega
  have length : daysOf (monthLengths year) = if isLeapYear year then 366 else 365 := by
    unfold monthLengths
    split <;> rfl
  have leap_iff : isLeapYear year ↔ year % 4 = 0 ∧ (year % 100 ≠ 0 ∨ year % 400 = 0) := by
    simp [isLeapYear]
  unfold daysBeforeYear
  rw [fourth, hundredth, fourHundredth, length]
  simp only [leap_iff]
  grind

/-- **A day lies within the year that is found for it.** -/
theorem Date.yearOf_spec (n : Int) :
    daysBeforeYear (yearOf n) ≤ n ∧ n < daysBeforeYear (yearOf n + 1) := by
  have before : daysBeforeYear (400 * n / 146097 - 1) ≤ n := by
    unfold daysBeforeYear
    omega
  have after : n < daysBeforeYear (400 * n / 146097 + 2) := by
    unfold daysBeforeYear
    omega
  unfold yearOf
  dsimp only
  split
  next early =>
    rw [Int.sub_add_cancel]
    exact ⟨before, early⟩
  split
  next late =>
    rw [Int.add_assoc]
    exact ⟨late, after⟩
  next notEarly notLate => exact ⟨Int.not_lt.1 notEarly, Int.not_le.1 notLate⟩

/-! ## Months and days -/

/-- Going through the months finds one of them and a day within it. The months passed and the day
make up the distance. -/
theorem Date.monthDay_spec (month rest : Nat) (lengths : List Nat) (h : rest < daysOf lengths) :
    ∃ passed : Nat, ∃ length : Nat, (monthDay month rest lengths).1 = month + passed ∧
      lengths[passed]? = some length ∧ 1 ≤ (monthDay month rest lengths).2 ∧
      (monthDay month rest lengths).2 ≤ length ∧
      daysOf (lengths.take passed) + (monthDay month rest lengths).2 = rest + 1 := by
  induction lengths generalizing month rest with
  | nil => exact absurd h (Nat.not_lt_zero rest)
  | cons n ns ih =>
    rw [daysOf] at h
    unfold monthDay
    split
    next here =>
      exact ⟨0, n, rfl, rfl, Nat.le_add_left 1 rest, here, Nat.zero_add (rest + 1)⟩
    next later =>
      obtain ⟨passed, length, hmonth, hlength, least, most, total⟩ :=
        ih (month + 1) (rest - n) (by omega)
      refine ⟨passed + 1, length, by omega, hlength, least, most, ?_⟩
      rw [List.take_succ_cons, daysOf]
      omega

/-- The months before the one found, and the day, as far as dates tell. -/
theorem Date.ofDays_spec (days : Int) :
    ∃ passed : Nat, ∃ length : Nat, (ofDays days).month = 1 + passed ∧
      (monthLengths (ofDays days).year)[passed]? = some length ∧ 1 ≤ (ofDays days).day ∧
      (ofDays days).day ≤ length ∧
      daysBeforeYear (ofDays days).year + daysOf ((monthLengths (ofDays days).year).take passed) +
        (ofDays days).day = days + daysBefore1970 + 1 := by
  obtain ⟨begun, notOver⟩ := yearOf_spec (days + daysBefore1970)
  rw [daysBeforeYear_succ] at notOver
  obtain ⟨passed, length, hmonth, hlength, least, most, total⟩ :=
    monthDay_spec 1 (days + daysBefore1970 - daysBeforeYear (yearOf (days + daysBefore1970))).toNat
      (monthLengths (yearOf (days + daysBefore1970))) (by omega)
  refine ⟨passed, length, hmonth, hlength, least, most, ?_⟩
  unfold ofDays
  dsimp only
  omega

/-! ## Days and dates -/

/-- **The date of a day exists.** -/
theorem Date.isValid_ofDays (days : Int) : (ofDays days).isValid = true := by
  obtain ⟨passed, length, hmonth, hlength, least, most, -⟩ := ofDays_spec days
  unfold isValid
  rw [hmonth, Nat.add_sub_cancel_left, hlength]
  simp [least, most]

/-- **A day is the one its date says.** -/
theorem Date.toDays_ofDays (days : Int) : (ofDays days).toDays = days := by
  obtain ⟨passed, length, hmonth, -, -, -, total⟩ := ofDays_spec days
  unfold toDays
  rw [hmonth, Nat.add_sub_cancel_left, foldl_add_eq]
  dsimp only
  omega

/-- A date has a month of the twelve and at most 31 days. -/
theorem Date.ofDays_bounds (days : Int) :
    (1 ≤ (ofDays days).month ∧ (ofDays days).month ≤ 12) ∧
      1 ≤ (ofDays days).day ∧ (ofDays days).day ≤ 31 := by
  obtain ⟨passed, length, hmonth, hlength, least, most, -⟩ := ofDays_spec days
  have few : passed < 12 := (List.getElem?_eq_some_iff.1 hlength).1
  have short : ∀ n ∈ monthLengths (ofDays days).year, n ≤ 31 := by
    unfold monthLengths
    split <;> decide
  have := short length (List.mem_of_getElem? hlength)
  omega

example : Date.ofDays 11016 = ⟨2000, 2, 29⟩ ∧ Date.ofDays (-1) = ⟨1969, 12, 31⟩ := by decide

end TeamLedger.Instant
