/-
Amounts as text.

An amount is written as a sign if it is below zero, an integer part of at least one digit, and
exactly `scale` decimals; so the text fixes the amount. Reading is more generous: a sign of either
kind, a point anywhere among the digits, `_` between them, more decimals than fit, and scientific
notation.

Reading keeps digits from left to right as long as they fit. Before the point a digit that does not
fit is an error. Behind the point the first one that does not fit decides which way the last kept
decimal is rounded, a half going away from zero, and those after it only have to be digits.
-/
import TeamLedger.Money
import TeamLedger.Text.Number

set_option autoImplicit false

namespace TeamLedger

namespace Money

/-! ## Writing -/

/-- The digits of the magnitude, with zeros in front so that one digit stands before the decimals. -/
def paddedDigits (a : Money) : List Char :=
  let ds := Nat.toDigits 10 a.mantissa.natAbs
  List.replicate (a.scale + 1 - ds.length) '0' ++ ds

/-- The characters of an amount. -/
def chars (a : Money) : List Char :=
  let ds := a.paddedDigits
  let whole := ds.take (ds.length - a.scale)
  let decimals := ds.drop (ds.length - a.scale)
  (if a.isNegative then ['-'] else []) ++ whole ++
    (if a.scale = 0 then [] else '.' :: decimals)

/-- The text of an amount. -/
def toText (a : Money) : String := String.ofList a.chars

/-! ## Reading positional notation -/

/-- What has been read of an amount. -/
structure Reading where
  mantissa : Nat := 0
  scale : Nat := 0
  /-- The point has been read. -/
  pointSeen : Bool := false
  /-- A digit has been read. -/
  digitSeen : Bool := false
  /-- A decimal has been left out, and so are all that follow. -/
  full : Bool := false
deriving DecidableEq, Repr

namespace Reading

/-- The reading with its last decimal rounded by the first digit left out. One decimal is given up
when the mantissa would outgrow its bound. -/
def rounded (r : Reading) (d : Nat) : Option Reading :=
  if d < 5 then some { r with full := true }
  -- rounded up, if there is room
  else if r.mantissa + 1 < 2 ^ 96 then some { r with mantissa := r.mantissa + 1, full := true }
  else if r.scale = 0 then none
  else some { r with mantissa := (r.mantissa + 5) / 10, scale := r.scale - 1, full := true }

/-- The reading with one more digit. -/
def push (r : Reading) (d : Nat) : Option Reading :=
  if r.full then some r
  else if 10 * r.mantissa + d < 2 ^ 96 ∧ r.scale < 28 then
    some { r with
      mantissa := 10 * r.mantissa + d
      scale := if r.pointSeen then r.scale + 1 else 0
      digitSeen := true }
  -- behind the point a digit may be left out, before it none may
  else if r.pointSeen then r.rounded d
  else none

/-- The reading with one more character. -/
def step (r : Reading) (c : Char) : Option Reading :=
  if c.isDigit then r.push (c.toNat - '0'.toNat)
  else if c = '.' ∧ ¬ r.pointSeen then some { r with pointSeen := true }
  else if c = '_' ∧ r.digitSeen then some r
  else none

/-- The amount read, with the given sign; a digit is needed. -/
def finish (r : Reading) (negative : Bool) : Option Money :=
  if r.digitSeen then
    ofParts? (if negative then -(r.mantissa : Int) else r.mantissa) r.scale
  else none

/-- Reads the characters behind the sign. -/
def run (negative : Bool) (cs : List Char) : Option Money := do
  (← cs.foldlM step {}).finish negative

end Reading

/-- Reads an amount in positional notation. -/
def ofPositional? : List Char → Option Money
  | '-' :: cs => Reading.run true cs
  | '+' :: cs => Reading.run false cs
  | cs => Reading.run false cs

/-! ## Reading scientific notation -/

/-- The amount `a · 10 ^ e`: decimals are used up first, and what remains is multiplied out into a
whole number, with `e` at most 28. -/
def shiftedUp? (a : Money) (e : Nat) : Option Money :=
  if e ≤ a.scale then ofParts? a.mantissa (a.scale - e)
  else if 28 < e then none
  else ofParts? (a.mantissa * 10 ^ (e - a.scale)) 0

/-- The amount `a · 10 ^ -e`, with `e` at most 28: the point moves to the left, and decimals beyond
the 28th are rounded away first. -/
def shiftedDown? (a : Money) (e : Nat) : Option Money :=
  if 28 < e then none
  else
    -- only as many decimals as leave room for the shift
    let a := if a.scale + e ≤ 28 then a else a.rescale (28 - e)
    ofParts? a.mantissa (a.scale + e)

/-- Reads an amount in scientific notation: positional notation, `e` or `E`, and an exponent of at
most 32 bits. -/
def ofScientific? (cs : List Char) : Option Money := do
  let isMark (c : Char) : Bool := c == 'e' || c == 'E'
  let base ← ofPositional? (cs.takeWhile (!isMark ·))
  match cs.dropWhile (!isMark ·) with
  | [] => none
  | _ :: '-' :: es => base.shiftedDown? (← Text.natural? (2 ^ 32) es)
  | _ :: es => base.shiftedUp? (← Text.natural? (2 ^ 32) es)

/-- Reads an amount: positional notation, else scientific notation. -/
def ofChars? (cs : List Char) : Option Money :=
  (ofPositional? cs).or (ofScientific? cs)

/-- Reads an amount from its text. -/
def ofText? (s : String) : Option Money := ofChars? s.toList

end Money

end TeamLedger
