/-
Numbers with a point or an exponent, as amounts of money are read from them.

Such a number stands for a binary floating-point number of 64 bits. The digits are collected while
the number they form stays below `2 ^ 64`, and are then scaled by a power of ten in one
multiplication or division, so the result is the nearest one for everyday numbers. It is read back
as the shortest decimal that stands for the same binary number: among the decimals of the
coarsest grid that has one in the rounding interval, the one nearest to the number, and of two that
are equally near the larger one.
-/
import TeamLedger.Json

set_option autoImplicit false

namespace TeamLedger

/-! ## From digits to a binary number -/

namespace Json.Number

/-- Adds digits to a number as long as it stays below `2 ^ 64`; the digits from the first one that
does not fit are left over. -/
def collect : Nat → List Char → Nat × List Char
  | n, [] => (n, [])
  | n, c :: cs =>
    let next := 10 * n + (c.toNat - '0'.toNat)
    if next < 2 ^ 64 then collect next cs else (n, c :: cs)

/-- The digits that count, as a number, and the power of ten that belongs to it without the written
exponent. -/
def significand (n : Number) : Nat × Int :=
  let whole := collect 0 n.whole
  let all := collect whole.1 n.decimals
  (all.1, (whole.2.length : Int) - ((n.decimals.length : Int) - all.2.length))

/-- The written exponent. -/
def exponentValue (n : Number) : Int :=
  match n.exponent with
  | none => 0
  | some (negative, ds) =>
    let e : Int := Nat.ofDigitChars 10 ds 0
    if negative then -e else e

/-- A power of ten, with an exponent of at most 308. -/
def powerOfTen (e : Nat) : Float := Float.ofScientific 1 false e

/-- Divides by `10 ^ e`, in steps of `10 ^ 308`; a zero stays. -/
def divideDown (f : Float) (e : Nat) : Float :=
  if h : e ≤ 308 then f / powerOfTen e
  else if f == 0 then f
  else divideDown (f / powerOfTen 308) (e - 308)
termination_by e
decreasing_by omega

/-- The magnitude of the binary number that is written; none if it is out of range. -/
def magnitude? (n : Number) : Option Float :=
  let s := n.significand
  let e := s.2 + n.exponentValue
  let f := s.1.toUInt64.toFloat
  if e < 0 then some (divideDown f e.natAbs)
  -- a zero is in range with any exponent
  else if s.1 = 0 then some 0
  else if 308 < e then none
  else
    let f := f * powerOfTen e.toNat
    if f.isInf then none else some f

end Json.Number

/-! ## The shortest decimal -/

namespace Binary64

/-- The parts of a positive binary number: it is `mantissa · 2 ^ exponent`. -/
structure Parts where
  mantissa : Nat
  exponent : Int
  /-- The next smaller number is only half as far away as the next larger one. -/
  closeBelow : Bool
deriving DecidableEq, Repr

/-- The parts of a number, from its bits. -/
def Parts.ofFloat (f : Float) : Parts :=
  let bits := f.toBits.toNat
  let fraction : Nat := bits % 2 ^ 52
  let biased : Nat := bits / 2 ^ 52 % 2 ^ 11
  -- the smallest numbers have no leading bit of their own
  if biased = 0 then ⟨fraction, -1074, false⟩
  else ⟨2 ^ 52 + fraction, (biased : Int) - 1075, fraction = 0 && 1 < biased⟩

/-- A decimal `digits · 10 ^ exponent`. -/
structure Decimal where
  digits : Nat
  exponent : Int
deriving DecidableEq, Repr

/-- A binary number and the ends of its rounding interval, as quotients with one denominator. -/
structure Interval where
  low : Nat
  value : Nat
  high : Nat
  denominator : Nat
  /-- The ends round to the number. -/
  closed : Bool
deriving DecidableEq, Repr

/-- The rounding interval of a number: half way to its neighbours. A number with an even mantissa
owns the ends. -/
def Parts.interval (p : Parts) : Interval :=
  let up := 2 ^ p.exponent.toNat
  -- in quarters, so that half of the smaller gap is a whole number
  let value := 4 * p.mantissa * up
  ⟨value - (if p.closeBelow then 1 else 2) * up, value, value + 2 * up,
    4 * 2 ^ (-p.exponent).toNat, p.mantissa % 2 = 0⟩

/-- The multiple `d` of a step, itself a quotient `num / den`, lies in the interval. -/
def Interval.holds (i : Interval) (num den d : Nat) : Bool :=
  let x := d * num * i.denominator
  if i.closed then i.low * den ≤ x && x ≤ i.high * den else i.low * den < x && x < i.high * den

/-- The decimal of the grid `10 ^ e` that lies in the interval and is nearest to the number; a tie
goes up. -/
def Interval.onGrid? (i : Interval) (e : Int) : Option Decimal :=
  let num := 10 ^ e.toNat
  let den := 10 ^ (-e).toNat
  let d := i.value * den / (num * i.denominator)
  let below := 0 < d && i.holds num den d
  let above := i.holds num den (d + 1)
  let rest := i.value * den - d * num * i.denominator
  if below && (!above || 2 * rest < num * i.denominator) then some ⟨d, e⟩
  else if above then some ⟨d + 1, e⟩
  else none

/-- The first decimal found on the grids from `10 ^ e` downwards. -/
def Interval.search (i : Interval) : Nat → Int → Option Decimal
  | 0, _ => none
  | n + 1, e => (i.onGrid? e).or (search i n (e - 1))

/-- The shortest decimal that stands for a positive number. -/
def shortest? (f : Float) : Option Decimal := (Parts.ofFloat f).interval.search 700 309

/-- The characters of a decimal, written with a point where one is needed and no exponent. -/
def Decimal.chars (d : Decimal) : List Char :=
  let ds := Nat.toDigits 10 d.digits
  if 0 ≤ d.exponent then ds ++ List.replicate d.exponent.toNat '0'
  else
    let places := d.exponent.natAbs
    let ds := List.replicate (places + 1 - ds.length) '0' ++ ds
    ds.take (ds.length - places) ++ '.' :: ds.drop (ds.length - places)

end Binary64

/-- The decimal text of the binary number that is written: shortest, and without an exponent. -/
def Json.Number.decimalChars? (n : Json.Number) : Option (List Char) := do
  let f ← n.magnitude?
  let digits ← if f == 0 then some ['0'] else (Binary64.shortest? f).map (·.chars)
  some ((if n.negative then ['-'] else []) ++ digits)

end TeamLedger
