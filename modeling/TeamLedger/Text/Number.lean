/-
Whole numbers as people write them: digits, with a sign in front or without; and single digits to
the base 16.

Only the ten ordinary digits count, there has to be one, and any number of zeros may stand in front.
A reader names the range that its numbers have, and a number beyond it is none.
-/
import TeamLedger.Power

set_option autoImplicit false

namespace TeamLedger.Text

/-- Reads digits, of which there has to be one. -/
def digits? (cs : List Char) : Option Nat :=
  if cs.isEmpty ∨ ¬ cs.all Char.isDigit then none else some (Nat.ofDigitChars 10 cs 0)

/-- Reads a number below a bound: digits, with or without a plus in front. -/
def natural? (bound : Nat) (cs : List Char) : Option Nat := do
  let n ← match cs with
    | '+' :: ds => digits? ds
    | ds => digits? ds
  if n < bound then some n else none

/-- Reads an integer of 64 bits: digits, with or without a sign in front. -/
def integer? (cs : List Char) : Option Int := do
  let n : Int ← match cs with
    | '-' :: ds => (digits? ds).map fun n => -(n : Int)
    | '+' :: ds => (digits? ds).map fun n => (n : Int)
    | ds => (digits? ds).map fun n => (n : Int)
  if -2 ^ 63 ≤ n ∧ n < 2 ^ 63 then some n else none

/-- The value of a hexadecimal digit. -/
def hexDigit? (c : Char) : Option Nat :=
  if '0' ≤ c ∧ c ≤ '9' then some (c.toNat - '0'.toNat)
  else if 'a' ≤ c ∧ c ≤ 'f' then some (c.toNat - 'a'.toNat + 10)
  else if 'A' ≤ c ∧ c ≤ 'F' then some (c.toNat - 'A'.toNat + 10)
  else none

end TeamLedger.Text
