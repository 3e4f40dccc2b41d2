/-
Numbers as a database sends them, and how they become amounts.

A database keeps numbers of any size. A number that is within the bounds of an amount is that amount,
decimals included, except that a zero has none. Any other number is put together from its groups of
four digits. The group that counts units has weight 0, the one to its left weight 1, the one to its
right weight -1, and groups of zeros at the end are not sent. What the groups stand for is added up
from the left, so the sum is rounded where it outgrows an amount, and at last it is given the
decimals that the number was declared with, as far as they fit.
-/
import TeamLedger.Sql.Fault

set_option autoImplicit false

namespace TeamLedger.Sql

/-- A number of a database. -/
inductive Numeric
  | notANumber
  /-- A sign, and the number `digits / 10 ^ decimals`. -/
  | number (negative : Bool) (digits decimals : Nat)
deriving DecidableEq, Repr

namespace Numeric

/-! ## Groups of digits -/

/-- The groups of four digits of a number, the lowest first. -/
def quads (n : Nat) : List Nat :=
  if n = 0 then [] else n % 10000 :: quads (n / 10000)

/-- A group of four digits and its weight: it stands for `digits * 10000 ^ weight`. -/
structure Group where
  digits : Nat
  weight : Int
deriving DecidableEq, Repr

/-- Gives groups, the lowest first, their weights. -/
def weigh : Int → List Nat → List Group
  | _, [] => []
  | w, g :: gs => ⟨g, w⟩ :: weigh (w + 1) gs

/-- The groups of the number `digits / 10 ^ decimals`, the highest first. -/
def groups (digits decimals : Nat) : List Group :=
  let behind := (decimals + 3) / 4
  let all := weigh (-(behind : Int)) (quads (digits * 10 ^ (4 * behind - decimals)))
  (all.dropWhile (·.digits = 0)).reverse

/-! ## Adding up -/

/-- What a group stands for. Weights go from -7 to 7, and the highest leaves room for the digit 7
only. -/
def Group.value (g : Group) : Except DecodeFault Money :=
  if 7 < g.weight.natAbs then .error .notRepresentable
  else if 0 ≤ g.weight then
    (Money.ofParts? (g.digits * 10 ^ (4 * g.weight.natAbs)) 0).elim
      (.error (.overflow .multiplication)) .ok
  else (Money.ofParts? g.digits (4 * g.weight.natAbs)).elim (.error .notRepresentable) .ok

/-- Adds what a group stands for. -/
def addGroup (sum : Money) (g : Group) : Except DecodeFault Money := do
  (sum.add (← g.value)).mapError fun _ => .notRepresentable

/-! ## Amounts -/

/-- The amount that a number is. -/
def toMoney : Numeric → Except DecodeFault Money
  | notANumber => .error .notANumber
  | number negative digits decimals =>
    if digits = 0 then .ok .zero
    else
      match Money.ofParts? (if negative then -(digits : Int) else digits) decimals with
      | some a => .ok a
      | none => do
        let sum ← (groups digits decimals).foldlM addGroup .zero
        pure ((if negative then -sum else sum).rescale decimals)

/-- An amount as a number. -/
def ofMoney (a : Money) : Numeric := number a.isNegative a.mantissa.natAbs a.scale

/-- An amount comes back as it was, except that a zero loses its decimals. -/
theorem toMoney_ofMoney (a : Money) :
    (ofMoney a).toMoney = .ok (if a.isZero then .zero else a) := by
  have signed : (if a.isNegative then -(a.mantissa.natAbs : Int) else a.mantissa.natAbs)
      = a.mantissa := by
    unfold Money.isNegative
    split
    · have below : a.mantissa < 0 := by simp_all
      omega
    · have notBelow : ¬ a.mantissa < 0 := by simp_all
      omega
  rw [ofMoney, toMoney, signed, Money.ofParts?_mantissa_scale]
  by_cases zero : a.mantissa = 0
  · simp [Money.isZero, zero]
  · simp [Money.isZero, zero]

/-! ## Text -/

/-- Reads digits with a point among them or without. -/
def unsigned? (negative : Bool) (cs : List Char) : Option Numeric :=
  let whole := cs.takeWhile (· != '.')
  let decimals := (cs.dropWhile (· != '.')).drop 1
  let digits := whole ++ decimals
  if digits.isEmpty ∨ ¬ digits.all Char.isDigit then none
  else some (number negative (Nat.ofDigitChars 10 digits 0) decimals.length)

/-- Reads a number from its text. -/
def ofText? (s : String) : Option Numeric :=
  match s.toList with
  | ['N', 'a', 'N'] => some notANumber
  | '-' :: cs => unsigned? true cs
  | cs => unsigned? false cs

end Numeric

end TeamLedger.Sql
