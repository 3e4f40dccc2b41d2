/-
The proleptic Gregorian calendar: dates and the number of days since 1970-01-01.

Days are counted from the start of year 0. A year begins `365 * y` days later, plus one day for
every leap year that has passed; that count is exact, so the year of a day is found by a close guess
and one comparison on either side.
-/
set_option autoImplicit false

namespace TeamLedger.Instant

/-- A year with a 29th of February. -/
def isLeapYear (year : Int) : Bool :=
  year % 4 == 0 && (year % 100 != 0 || year % 400 == 0)

/-- The lengths of the months of a year, in order. -/
def monthLengths (year : Int) : List Nat :=
  [31, if isLeapYear year then 29 else 28, 31, 30, 31, 30, 31, 31, 30, 31, 30, 31]

/-- Days from the start of year 0 to the start of a year. -/
def daysBeforeYear (year : Int) : Int :=
  365 * year + (year + 3) / 4 - (year + 99) / 100 + (year + 399) / 400

/-- Days from the start of year 0 to 1970-01-01. -/
def daysBefore1970 : Int := daysBeforeYear 1970

/-- A date of the calendar. Months and days count from 1. -/
structure Date where
  year : Int
  month : Nat
  day : Nat
deriving DecidableEq, Repr

namespace Date

/-- The date exists: its month is one of the twelve, and its day is one of that month. -/
def isValid (d : Date) : Bool :=
  1 ≤ d.month && 1 ≤ d.day &&
    match (monthLengths d.year)[d.month - 1]? with
    | some n => d.day ≤ n
    | none => false

/-- Days since 1970-01-01. -/
def toDays (d : Date) : Int :=
  let months : Nat := ((monthLengths d.year).take (d.month - 1)).foldl (· + ·) 0
  daysBeforeYear d.year + months + d.day - 1 - daysBefore1970

/-- The year that holds the day with the given number, counted from the start of year 0. -/
def yearOf (n : Int) : Int :=
  -- 146097 days are 400 years; the guess is off by one at most
  let guess := 400 * n / 146097
  if n < daysBeforeYear guess then guess - 1
  else if daysBeforeYear (guess + 1) ≤ n then guess + 1
  else guess

/-- The month and day at a distance from the start of a month, given the lengths of that month and
the ones after it. -/
def monthDay (month rest : Nat) : List Nat → Nat × Nat
  | [] => (month, rest + 1)
  | n :: ns => if rest < n then (month, rest + 1) else monthDay (month + 1) (rest - n) ns

/-- The date of a day, counted from 1970-01-01. -/
def ofDays (days : Int) : Date :=
  let n := days + daysBefore1970
  let year := yearOf n
  let md := monthDay 1 (n - daysBeforeYear year).toNat (monthLengths year)
  ⟨year, md.1, md.2⟩

end Date

end TeamLedger.Instant
