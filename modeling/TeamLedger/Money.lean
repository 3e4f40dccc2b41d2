/-
Amounts of money.

An amount is a whole mantissa of magnitude below `2 ^ 96` together with a scale from 0 to 28, the
number of its decimals. The scale is part of the amount as it is written (`1.50` is not the text
`1.5`), but not of its value, so two relations live here: equality, which sees the scale, and `≈`,
`<` and `≤`, which compare values. Every value is a whole number of `10 ^ -28`, its `units`, and the
comparisons are those of whole numbers.

Addition and subtraction are exact whenever the exact result fits. When it does not, the result is
rounded once, a half to the even neighbour, at the largest scale at which it fits; when it fits at
no scale the operation overflows, which is an outcome of its own and never a wrong amount.
-/
import TeamLedger.Power

set_option autoImplicit false

namespace TeamLedger

/-- An amount of money: the number `mantissa / 10 ^ scale`, written with `scale` decimals. -/
structure Money where
  mantissa : Int
  scale : Nat
  mantissa_lt : mantissa.natAbs < 2 ^ 96
  scale_le : scale ≤ 28
deriving DecidableEq, Repr

namespace Money

/-! ## Building amounts -/

/-- The amount with the given parts, if they are within bounds. -/
def ofParts? (mantissa : Int) (scale : Nat) : Option Money :=
  if h : mantissa.natAbs < 2 ^ 96 ∧ scale ≤ 28 then some ⟨mantissa, scale, h.1, h.2⟩ else none

/-- An amount is made of its parts. -/
theorem ofParts?_mantissa_scale (a : Money) : ofParts? a.mantissa a.scale = some a :=
  dif_pos ⟨a.mantissa_lt, a.scale_le⟩

/-- Zero without decimals. -/
def zero : Money := ⟨0, 0, by decide, by decide⟩

instance : Inhabited Money := ⟨zero⟩

/-- The amount is zero, whatever its scale. -/
def isZero (a : Money) : Bool := a.mantissa == 0

/-- The amount is below zero. -/
def isNegative (a : Money) : Bool := a.mantissa < 0

/-- The opposite amount, with the same decimals. -/
def neg (a : Money) : Money :=
  ⟨-a.mantissa, a.scale, by rw [Int.natAbs_neg]; exact a.mantissa_lt, a.scale_le⟩

instance : Neg Money := ⟨neg⟩

/-- The amount without its sign. -/
def abs (a : Money) : Money :=
  ⟨a.mantissa.natAbs, a.scale, by rw [Int.natAbs_natCast]; exact a.mantissa_lt, a.scale_le⟩

/-! ## Comparing values -/

/-- The value as a whole number of `10 ^ -28`. -/
def units (a : Money) : Int := a.mantissa * 10 ^ (28 - a.scale)

instance : LT Money := ⟨fun a b => a.units < b.units⟩
instance : LE Money := ⟨fun a b => a.units ≤ b.units⟩
instance : HasEquiv Money := ⟨fun a b => a.units = b.units⟩

instance (a b : Money) : Decidable (a < b) := inferInstanceAs (Decidable (a.units < b.units))
instance (a b : Money) : Decidable (a ≤ b) := inferInstanceAs (Decidable (a.units ≤ b.units))
instance (a b : Money) : Decidable (a ≈ b) := inferInstanceAs (Decidable (a.units = b.units))

theorem lt_iff {a b : Money} : a < b ↔ a.units < b.units := Iff.rfl
theorem le_iff {a b : Money} : a ≤ b ↔ a.units ≤ b.units := Iff.rfl
theorem equiv_iff {a b : Money} : a ≈ b ↔ a.units = b.units := Iff.rfl

/-! ## Rounding -/

/-- The quotient of `n` by a positive `d`, rounded to the nearest whole number, a half to the even
neighbour. -/
def divHalfEven (n : Int) (d : Nat) : Int :=
  let q := n.natAbs / d
  let r := n.natAbs % d
  -- on the magnitude, so that both signs round alike
  let q' := if d < 2 * r ∨ (2 * r = d ∧ q % 2 = 1) then q + 1 else q
  if n < 0 then -q' else q'

/-- The number `m / 10 ^ s`, rounded once to the largest scale, at most `t`, at which it fits. -/
def fit? (m : Int) (s : Nat) : Nat → Option Money
  | 0 => ofParts? (divHalfEven m (10 ^ s)) 0
  -- every scale rounds the exact number anew, so that it is rounded once
  | t + 1 => (ofParts? (divHalfEven m (10 ^ (s - (t + 1)))) (t + 1)).or (fit? m s t)

/-- The sum of two non-zero amounts: exact at the larger scale, rounded only if it has to be. -/
def sum? (a b : Money) : Option Money :=
  let s := max a.scale b.scale
  fit? (a.mantissa * 10 ^ (s - a.scale) + b.mantissa * 10 ^ (s - b.scale)) s s

/-! ## Changing the number of decimals -/

/-- The quotient of `n` by `d`, rounded to the nearest whole number, a half away from zero. -/
def divHalfAway (n : Int) (d : Nat) : Int :=
  let q := (n.natAbs + d / 2) / d
  if n < 0 then -q else q

/-- Rounding to whole numbers does not leave the bounds. -/
theorem natAbs_divHalfAway_le (n : Int) (d : Nat) : (divHalfAway n d).natAbs ≤ n.natAbs := by
  have quotient_le : (n.natAbs + d / 2) / d ≤ n.natAbs := by
    rcases Nat.eq_zero_or_pos d with rfl | hd
    · simp
    · have scaled : n.natAbs ≤ n.natAbs * d := Nat.le_mul_of_pos_right _ hd
      have half : d / 2 < d := Nat.div_lt_self hd (by decide)
      have bound : (n.natAbs + d / 2) / d < n.natAbs + 1 := by
        rw [Nat.div_lt_iff_lt_mul hd, Nat.add_mul]
        omega
      omega
  simp only [divHalfAway]
  split
  · rw [Int.natAbs_neg, Int.natAbs_natCast]
    exact quotient_le
  · rw [Int.natAbs_natCast]
    exact quotient_le

/-- The same value with up to `n` more zeros behind its decimals, as many as fit. -/
def extend (a : Money) : Nat → Money
  | 0 => a
  | n + 1 =>
    match ofParts? (a.mantissa * 10) (a.scale + 1) with
    | some b => b.extend n
    | none => a

/-- The amount with `s` decimals. Missing ones are zeros, as far as they fit; where there are too
many the amount is rounded, a half going away from zero. -/
def rescale (a : Money) (s : Nat) : Money :=
  if h : a.scale ≤ s then a.extend (s - a.scale)
  else
    ⟨divHalfAway a.mantissa (10 ^ (a.scale - s)), s,
      Nat.lt_of_le_of_lt (natAbs_divHalfAway_le ..) a.mantissa_lt,
      Nat.le_trans (Nat.le_of_not_le h) a.scale_le⟩

/-! ## Addition and subtraction -/

/-- The operation whose result fits at no scale. -/
inductive Overflow
  | addition
  | subtraction
  | multiplication
deriving DecidableEq, Repr

/-- What is reported when an operation overflows. -/
def Overflow.message : Overflow → String
  | addition => "Addition overflowed"
  | subtraction => "Subtraction overflowed"
  | multiplication => "Multiplication overflowed"

/-- Addition. A zero operand leaves the other one as it is, decimals included. -/
def add (a b : Money) : Except Overflow Money :=
  if a.isZero then .ok b
  else if b.isZero then .ok a
  else (sum? a b).elim (.error .addition) .ok

/-- Subtraction. A zero operand leaves the other one as it is, decimals included. -/
def sub (a b : Money) : Except Overflow Money :=
  if a.isZero then .ok (-b)
  else if b.isZero then .ok a
  else (sum? a (-b)).elim (.error .subtraction) .ok

/-- The sum of a list, added up from the left starting at zero. -/
def total (as : List Money) : Except Overflow Money := as.foldlM add zero

end Money

end TeamLedger
