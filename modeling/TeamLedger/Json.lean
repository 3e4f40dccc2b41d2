/-
JSON values.

A number is kept as it is written, because the same digits mean different things to different
readers: an id has to be written as an integer, and an amount may be written either way. A text is
a sequence of characters. What is written correctly and still names no text, an escape for half of
a character, has a constructor of its own: such a value can be passed over, but not read.
-/
import TeamLedger.Power

set_option autoImplicit false

namespace TeamLedger

/-- A number as it is written: a sign, the digits before the point, the digits behind it (none if
there is no point), and the exponent with its sign. -/
structure Json.Number where
  negative : Bool
  whole : List Char
  decimals : List Char := []
  exponent : Option (Bool × List Char) := none
deriving DecidableEq, Repr

/-- A JSON value. The members of an object keep their order, and a name may occur twice. -/
inductive Json
  | null
  | bool (b : Bool)
  | number (n : Json.Number)
  | text (s : String)
  | array (items : List Json)
  | object (members : List (String × Json))
  /-- A text, or an object with a name, that holds half of a character. -/
  | unreadable
deriving Repr

namespace Json

instance : Inhabited Json := ⟨null⟩

/-! ## Numbers -/

namespace Number

/-- An integer as it is written. -/
def ofInt (n : Int) : Number := ⟨n < 0, Nat.toDigits 10 n.natAbs, [], none⟩

/-- The digits before the point as a number. -/
def wholeValue (n : Number) : Nat := Nat.ofDigitChars 10 n.whole 0

/-- The integer that is written: no point, no exponent, and at least `-2 ^ 63` and below `2 ^ 64`.
A zero with a minus sign is not an integer. -/
def integer? (n : Number) : Option Int :=
  if ¬ n.decimals.isEmpty ∨ n.exponent.isSome then none
  else if n.negative then
    if 0 < n.wholeValue ∧ n.wholeValue ≤ 2 ^ 63 then some (-(n.wholeValue : Int)) else none
  else if n.wholeValue < 2 ^ 64 then some n.wholeValue
  else none

end Number

/-- An integer. -/
def ofInt (n : Int) : Json := number (Number.ofInt n)

/-! ## Looking into a value -/

/-- The value of the first member with a name. -/
def get? (j : Json) (name : String) : Option Json :=
  match j with
  | object members => (members.find? (·.1 == name)).map (·.2)
  | _ => none

/-- The integer that the value is. -/
def integer? : Json → Option Int
  | number n => n.integer?
  | _ => none

/-- The text that the value is. -/
def text? : Json → Option String
  | text s => some s
  | _ => none

/-- The truth value that the value is. -/
def bool? : Json → Option Bool
  | bool b => some b
  | _ => none

/-- The items of the array that the value is. -/
def items? : Json → Option (List Json)
  | array items => some items
  | _ => none

end Json

end TeamLedger
