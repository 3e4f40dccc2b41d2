/-
Amounts that are added exactly.

A sum is rounded only when it does not fit at the scale of its operands, and then to the largest scale
at which it fits. So if the sum could be written with fewer decimals as it stands, and fits at that
smaller scale, then rounding finds such a scale and drops nothing but zeros (`Money.fit?_exact`).

Amounts of a ledger are whole numbers of ten-thousandths. So are their sums and differences, and each
operation adds to the bound of their magnitude (`Money.Within`). With 96 bits there is room for
`10 ^ 28` ten-thousandths and more, which is `10 ^ 9` amounts of up to `10 ^ 15` each.
-/
import Mathlib.Algebra.Order.Field.Basic
import Mathlib.Algebra.Order.Field.Rat
import Mathlib.Algebra.Order.Group.Unbundled.Int
import Mathlib.Tactic.Linarith
import Mathlib.Tactic.NormNum
import Mathlib.Tactic.Ring
import TeamLedger.Proofs.Pairs

set_option autoImplicit false

namespace TeamLedger.Money

variable {a b : Money} {m n : Nat}

/-! ## Rounding that drops nothing -/

/-- A multiple is divided without a remainder. -/
theorem divHalfEven_mul (k : Int) {d : Nat} (hd : 0 < d) : divHalfEven (k * d) d = k := by
  have hquotient : (k * d).natAbs / d = k.natAbs := by
    rw [Int.natAbs_mul, Int.natAbs_natCast, Nat.mul_div_cancel _ hd]
  have hremainder : (k * d).natAbs % d = 0 := by
    rw [Int.natAbs_mul, Int.natAbs_natCast, Nat.mul_mod_left]
  have hpos : (0 : Int) < d := Int.natCast_pos.2 hd
  -- there is nothing to round, and the sign is that of the quotient
  have hround : divHalfEven (k * d) d = if k * d < 0 then -(k.natAbs : Int) else k.natAbs := by
    have hnone : ¬ (d < 2 * 0 ∨ 2 * 0 = d ∧ k.natAbs % 2 = 1) := by omega
    simp only [divHalfEven, hquotient, hremainder, if_neg hnone]
  rw [hround]
  rcases Int.lt_or_le k 0 with hk | hk
  · rw [if_pos (Int.mul_neg_of_neg_of_pos hk hpos)]
    omega
  · rw [if_neg (Int.not_lt.2 (Int.mul_nonneg hk (Int.le_of_lt hpos)))]
    omega

/-- **Rounding is exact** when the number can be written with `u` decimals and fits so. -/
theorem fit?_exact {k : Int} {s t u : Nat} (hut : u ≤ t) (hts : t ≤ s) (hs : s ≤ 28)
    (hk : k.natAbs < 2 ^ 96) :
    ∃ c, fit? (k * 10 ^ (s - u)) s t = some c ∧ c.units = k * 10 ^ (28 - u) := by
  have hcast (n : Nat) : ((10 ^ n : Nat) : Int) = 10 ^ n := Int.natCast_pow 10 n
  -- a scale at which the number can be written and fits is taken as it is
  have taken {v : Nat} (huv : u ≤ v) (hvs : v ≤ s) {c : Money}
      (hc : ofParts? (divHalfEven (k * 10 ^ (s - u)) (10 ^ (s - v))) v = some c) :
      c.units = k * 10 ^ (28 - u) := by
    have hwhole : k * 10 ^ (s - u) = k * 10 ^ (v - u) * ((10 ^ (s - v) : Nat) : Int) := by
      rw [hcast, Int.mul_assoc, ← Int.pow_add]
      congr 2
      omega
    rw [hwhole, divHalfEven_mul _ (Nat.pow_pos (by decide))] at hc
    unfold ofParts? at hc
    split at hc
    · cases hc
      show k * 10 ^ (v - u) * 10 ^ (28 - v) = _
      rw [Int.mul_assoc, ← Int.pow_add]
      congr 2
      omega
    · cases hc
  have hfirst : ofParts? (divHalfEven (k * 10 ^ (s - u)) (10 ^ (s - u))) u =
      some ⟨k, u, hk, by omega⟩ := by
    rw [← hcast, divHalfEven_mul _ (Nat.pow_pos (by decide))]
    exact dif_pos ⟨hk, Nat.le_trans hut (Nat.le_trans hts hs)⟩
  induction t with
  | zero =>
    obtain rfl : u = 0 := Nat.le_zero.1 hut
    exact ⟨_, hfirst, taken (Nat.le_refl 0) hts hfirst⟩
  | succ t ih =>
    unfold fit?
    cases hparts : ofParts? (divHalfEven (k * 10 ^ (s - u)) (10 ^ (s - (t + 1)))) (t + 1) with
    | some c => exact ⟨c, rfl, taken hut hts hparts⟩
    | none =>
      rw [Option.none_or]
      rcases Nat.lt_or_eq_of_le hut with hlt | rfl
      · exact ih (Nat.le_of_lt_succ hlt) (Nat.le_of_succ_le hts) hfirst
      · rw [hfirst] at hparts
        cases hparts

/-! ## Ten-thousandths -/

/-- The amount is a whole number of ten-thousandths, and at most `n` of them. -/
def Within (n : Nat) (a : Money) : Prop := ∃ k : Int, a.units = k * 10 ^ 24 ∧ k.natAbs ≤ n

theorem units_neg (a : Money) : (-a).units = -a.units := Int.neg_mul _ _

theorem Within.neg (h : a.Within n) : (-a).Within n := by
  obtain ⟨k, hk, hbound⟩ := h
  exact ⟨-k, by rw [units_neg, hk, Int.neg_mul], by rw [Int.natAbs_neg]; exact hbound⟩

/-- At a larger scale the mantissa stands for the same value. -/
theorem units_aligned (a : Money) {s : Nat} (hscale : a.scale ≤ s) (hs : s ≤ 28) :
    a.mantissa * 10 ^ (s - a.scale) * 10 ^ (28 - s) = a.units := by
  rw [units, Int.mul_assoc, ← Int.pow_add]
  congr 2
  omega

/-- Two amounts in ten-thousandths are added exactly as long as the bound of the sum fits. -/
theorem sum?_within (ha : a.Within m) (hb : b.Within n) (hfits : m + n < 2 ^ 96) :
    ∃ c, sum? a b = some c ∧ c.units = a.units + b.units := by
  obtain ⟨j, hj, hjm⟩ := ha
  obtain ⟨k, hk, hkn⟩ := hb
  have hs : max a.scale b.scale ≤ 28 := Nat.max_le.2 ⟨a.scale_le, b.scale_le⟩
  have hsum : (a.mantissa * 10 ^ (max a.scale b.scale - a.scale) +
      b.mantissa * 10 ^ (max a.scale b.scale - b.scale)) * 10 ^ (28 - max a.scale b.scale) =
        (j + k) * 10 ^ 24 := by
    rw [Int.add_mul, units_aligned a (Nat.le_max_left ..) hs, units_aligned b (Nat.le_max_right ..) hs,
      hj, hk, Int.add_mul]
  rw [hj, hk, ← Int.add_mul]
  unfold sum?
  generalize max a.scale b.scale = s at hs hsum
  dsimp only
  generalize a.mantissa * 10 ^ (s - a.scale) + b.mantissa * 10 ^ (s - b.scale) = N at hsum ⊢
  have hpos : (10 : Int) ^ (28 - s) ≠ 0 := Int.pow_ne_zero (by decide)
  rcases Nat.le_total 4 s with hle | hle
  · -- behind the fourth decimal there are zeros only
    have hN : N = (j + k) * 10 ^ (s - 4) := by
      refine Int.eq_of_mul_eq_mul_right hpos (hsum.trans ?_)
      rw [Int.mul_assoc, ← Int.pow_add]
      congr 2
      omega
    rw [hN]
    exact fit?_exact hle (Nat.le_refl s) hs (by omega)
  · -- all decimals are needed, and the mantissa is no larger than in ten-thousandths
    have hN : N * 10 ^ (4 - s) = j + k := by
      refine Int.eq_of_mul_eq_mul_right (by decide : (10 : Int) ^ 24 ≠ 0) (Eq.trans ?_ hsum)
      rw [Int.mul_assoc, ← Int.pow_add]
      congr 2
      omega
    have hbound : N.natAbs ≤ (j + k).natAbs := by
      rw [← hN, Int.natAbs_mul]
      exact Nat.le_mul_of_pos_right _ (Int.natAbs_pos.2 (Int.pow_ne_zero (by decide)))
    obtain ⟨c, hc, hunits⟩ := fit?_exact (k := N) (Nat.le_refl s) (Nat.le_refl s) hs (by omega)
    rw [Nat.sub_self, Int.pow_zero, Int.mul_one] at hc
    refine ⟨c, hc, hunits.trans (Eq.trans ?_ hsum)⟩
    rfl

/-- As long as the bound of the result fits, the operation is exact: it adds the second amount, or takes
it off, without rounding. -/
def Exact (operation : Money → Money → Except Overflow Money) (sign : Int) : Prop :=
  ∀ {a b : Money} {m n : Nat}, a.Within m → b.Within n → m + n < 2 ^ 96 →
    ∃ c, operation a b = .ok c ∧ c.Within (m + n) ∧ c.units = a.units + sign * b.units

/-- **Addition is exact.** -/
theorem exact_add : Exact add 1 := by
  intro a b m n ha hb hfits
  rw [Int.one_mul]
  have hwithin {c : Money} (hc : c.units = a.units + b.units) : c.Within (m + n) := by
    obtain ⟨j, hj, hjm⟩ := ha
    obtain ⟨k, hk, hkn⟩ := hb
    exact ⟨j + k, by rw [hc, hj, hk, Int.add_mul], by omega⟩
  unfold add
  split
  next hzero =>
    have hunits : b.units = a.units + b.units := by
      rw [isZero_iff.1 hzero, Int.zero_add]
    exact ⟨b, rfl, hwithin hunits, hunits⟩
  next =>
    split
    next hzero =>
      have hunits : a.units = a.units + b.units := by
        rw [isZero_iff.1 hzero, Int.add_zero]
      exact ⟨a, rfl, hwithin hunits, hunits⟩
    next =>
      obtain ⟨c, hc, hunits⟩ := sum?_within ha hb hfits
      rw [hc]
      exact ⟨c, rfl, hwithin hunits, hunits⟩

/-- Subtraction is addition of the opposite, but for what an overflow is called. -/
theorem sub_eq_ok_iff {c : Money} : a.sub b = .ok c ↔ a.add (-b) = .ok c := by
  have hzero : (-b).isZero = b.isZero := by
    rw [Bool.eq_iff_iff, isZero_iff, isZero_iff, units_neg]
    omega
  unfold sub add
  rw [hzero]
  split
  · exact Iff.rfl
  · split
    · exact Iff.rfl
    · cases sum? a (-b) with
      | none => exact ⟨fun h => (nomatch h), fun h => (nomatch h)⟩
      | some c => exact Iff.rfl

/-- **Subtraction is exact.** -/
theorem exact_sub : Exact sub (-1) := by
  intro a b m n ha hb hfits
  obtain ⟨c, hc, hwithin, hunits⟩ := exact_add ha hb.neg hfits
  exact ⟨c, sub_eq_ok_iff.2 hc, hwithin, by rw [hunits, units_neg]; omega⟩

/-- **A row of operations is exact.** Each one adds to the bound, and the last one still fits. -/
theorem Exact.foldlM {operation : Money → Money → Except Overflow Money} {sign : Int}
    (h : Exact operation sign) {is : List Invoice} (ha : a.Within m)
    (his : ∀ i ∈ is, i.amount.Within n) (hfits : m + is.length * n < 2 ^ 96) :
    ∃ c, (is.map (·.amount)).foldlM operation a = .ok c ∧
      c.units = a.units + sign * Invoice.sumUnits is := by
  induction is generalizing a m with
  | nil => exact ⟨a, rfl, by simp [Invoice.sumUnits]⟩
  | cons i is ih =>
    obtain ⟨hi, his⟩ := List.forall_mem_cons.1 his
    rw [List.length_cons, Nat.succ_mul] at hfits
    obtain ⟨b, hb, hwithin, hunits⟩ := h ha hi (by omega)
    obtain ⟨c, hc, hunits'⟩ := ih hwithin his (by omega)
    refine ⟨c, ?_, ?_⟩
    · rw [List.map_cons, List.foldlM_cons, hb]
      exact hc
    · rw [hunits', hunits, Invoice.sumUnits_cons, Int.mul_add]
      omega

/-! ## Values -/

/-- The number that the amount stands for. -/
def value (a : Money) : ℚ := a.mantissa / ((10 ^ a.scale : Nat) : ℚ)

theorem ten_pow_pos (n : Nat) : (0 : ℚ) < ((10 ^ n : Nat) : ℚ) :=
  Nat.cast_pos.2 (Nat.pow_pos (by decide))

/-- At a larger scale the value is still a whole number. -/
theorem value_mul (a : Money) {s : Nat} (hs : a.scale ≤ s) :
    a.value * ((10 ^ s : Nat) : ℚ) = ((a.mantissa * 10 ^ (s - a.scale) : Int) : ℚ) := by
  have split_eq : (10 : Nat) ^ s = 10 ^ a.scale * 10 ^ (s - a.scale) := by
    rw [← Nat.pow_add, Nat.add_sub_cancel' hs]
  have rest_eq : ((10 ^ (s - a.scale) : Nat) : ℚ) = (((10 : Int) ^ (s - a.scale) : Int) : ℚ) := by
    rw [← Int.cast_natCast, Int.natCast_pow]
    rfl
  rw [split_eq, Nat.cast_mul, ← mul_assoc, value, div_mul_cancel₀ _ (ne_of_gt (ten_pow_pos _)),
    rest_eq, Int.cast_mul]

/-- An amount is worth its units. -/
theorem units_cast (a : Money) : (a.units : ℚ) = a.value * ((10 ^ 28 : Nat) : ℚ) :=
  (a.value_mul a.scale_le).symm

theorem value_eq_of_units {q : ℚ} (h : (a.units : ℚ) = q * ((10 ^ 28 : Nat) : ℚ)) : a.value = q :=
  mul_right_cancel₀ (ne_of_gt (ten_pow_pos 28)) ((units_cast a).symm.trans h)

/-- Values are compared as amounts are. -/
theorem value_lt_iff : a.value < b.value ↔ a < b := by
  rw [lt_iff, ← Int.cast_lt (R := ℚ), units_cast, units_cast, mul_lt_mul_iff_left₀ (ten_pow_pos 28)]

theorem value_eq_iff : a.value = b.value ↔ a ≈ b := by
  rw [equiv_iff, ← Int.cast_inj (α := ℚ), units_cast, units_cast,
    mul_left_inj' (ne_of_gt (ten_pow_pos 28))]

theorem value_zero_iff : a.value = 0 ↔ a.units = 0 := by
  rw [← Int.cast_inj (α := ℚ), units_cast, Int.cast_zero, mul_eq_zero,
    or_iff_left (ne_of_gt (ten_pow_pos 28))]

theorem value_zero : zero.value = 0 := value_zero_iff.2 rfl

theorem value_neg_iff : a.value < 0 ↔ a.units < 0 := by
  rw [← value_zero, value_lt_iff]
  exact Iff.rfl

theorem value_abs (a : Money) : a.abs.value = |a.value| := by
  rw [value, value, abs_div, abs_of_pos (ten_pow_pos a.scale), ← Int.cast_abs, Int.abs_eq_natAbs]
  rfl

/-- The amount is one of a ledger: it has at most four decimals, and at most fifteen digits before
them. -/
structure LedgerSized (a : Money) : Prop where
  decimals : ∃ k : ℤ, a.value * 10000 = k
  magnitude : |a.value| < 1000000000000000

/-- An amount of a ledger is a whole number of ten-thousandths, and less than `10 ^ 19` of them. -/
theorem LedgerSized.within (h : a.LedgerSized) : a.Within (10 ^ 19) := by
  obtain ⟨k, hk⟩ := h.decimals
  have hmagnitude := h.magnitude
  have hunits : (a.units : ℚ) = ((k * 10 ^ 24 : ℤ) : ℚ) := by
    rw [units_cast, Int.cast_mul, ← hk, mul_assoc]
    norm_num
  have hbound : |(k : ℚ)| < 10000000000000000000 := by
    rw [← hk, abs_mul, abs_of_pos (by norm_num : (0 : ℚ) < 10000)]
    linarith
  have hnatAbs : |k| < 10000000000000000000 := by exact_mod_cast hbound
  rw [Int.abs_eq_natAbs] at hnatAbs
  exact ⟨k, Int.cast_injective hunits, by omega⟩

/-- An amount with at most four decimals is of a ledger, if it is not too large. -/
theorem ledgerSized_of_scale_le (hscale : a.scale ≤ 4)
    (hmantissa : a.mantissa.natAbs < 10 ^ 15 * 10 ^ a.scale) : a.LedgerSized where
  decimals := ⟨_, by
    rw [← a.value_mul hscale]
    norm_num⟩
  magnitude := by
    have hcast : |(a.mantissa : ℚ)| < 1000000000000000 * ((10 ^ a.scale : Nat) : ℚ) := by
      rw [← Int.cast_abs, Int.abs_eq_natAbs, Int.cast_natCast]
      exact_mod_cast hmantissa
    rw [value, abs_div, abs_of_pos (ten_pow_pos a.scale), div_lt_iff₀ (ten_pow_pos a.scale)]
    exact hcast

end TeamLedger.Money
