/-
Every amount is read back from its text, with its decimals.

The text of an amount has all of its digits, so nothing is rounded on the way
back: the digits read so far always form a number that is at most the magnitude
of the amount, which fits, and there are as many decimals as its scale says. So
the reader takes every digit, and what it has read after some digits is what
they say (`foldlM_digits`).
-/
import TeamLedger.Money.Text
import TeamLedger.Proofs.Digits

set_option autoImplicit false

namespace TeamLedger.Money

/-! ## Reading digits -/

theorem le_ofDigitChars (ds : List Char) (m : Nat) : m ≤ Nat.ofDigitChars 10 ds m := by
  induction ds generalizing m with
  | nil => exact Nat.le_refl m
  | cons d ds ih =>
    rw [Nat.ofDigitChars_cons]
    exact Nat.le_trans (by omega) (ih _)

/-- The reading after one digit, if it fits. -/
theorem Reading.step_digit {r : Reading} {d : Char} (hd : d.isDigit = true) (hfull : r.full = false)
    (room : 10 * r.mantissa + (d.toNat - '0'.toNat) < 2 ^ 96) (decimal : r.scale < 28) :
    r.step d = some { r with
      mantissa := 10 * r.mantissa + (d.toNat - '0'.toNat)
      scale := if r.pointSeen then r.scale + 1 else 0
      digitSeen := true } := by
  unfold step push
  rw [if_pos hd, hfull, if_neg Bool.false_ne_true, if_pos ⟨room, decimal⟩]

/-- The reading after digits, as long as they fit. -/
theorem foldlM_digits {ds : List Char} (hds : ∀ c ∈ ds, c.isDigit = true) {r : Reading}
    (hfull : r.full = false) (hfits : Nat.ofDigitChars 10 ds r.mantissa < 2 ^ 96)
    (hscale : if r.pointSeen then r.scale + ds.length ≤ 28 else r.scale = 0) :
    ds.foldlM Reading.step r = some { r with
      mantissa := Nat.ofDigitChars 10 ds r.mantissa
      scale := if r.pointSeen then r.scale + ds.length else 0
      digitSeen := r.digitSeen || !ds.isEmpty } := by
  induction ds generalizing r with
  | nil =>
    obtain ⟨mantissa, scale, pointSeen, digitSeen, full⟩ := r
    cases pointSeen with
    | true => simp
    | false =>
      have hscale : scale = 0 := by simpa using hscale
      simp [hscale]
  | cons d ds ih =>
    obtain ⟨mantissa, scale, pointSeen, digitSeen, full⟩ := r
    have hfull : full = false := hfull
    subst hfull
    rw [Nat.ofDigitChars_cons] at hfits
    have decimal : scale < 28 := by
      cases pointSeen with
      | true =>
        have hscale : scale + (d :: ds).length ≤ 28 := by simpa using hscale
        rw [List.length_cons] at hscale
        omega
      | false =>
        have hscale : scale = 0 := by simpa using hscale
        omega
    rw [List.foldlM_cons, Reading.step_digit (hds d List.mem_cons_self) rfl
      (Nat.lt_of_le_of_lt (le_ofDigitChars ds _) hfits) decimal]
    refine (ih (fun c hc => hds c (List.mem_cons_of_mem _ hc)) rfl hfits ?_).trans ?_
    · cases pointSeen with
      | true =>
        have hscale : scale + (d :: ds).length ≤ 28 := by simpa using hscale
        rw [List.length_cons] at hscale
        simp only [if_true]
        omega
      | false => rfl
    · cases pointSeen with
      | true =>
        have length_eq : scale + 1 + ds.length = scale + (ds.length + 1) := by omega
        simp [Nat.ofDigitChars_cons, length_eq]
      | false => simp [Nat.ofDigitChars_cons]

/-! ## The digits of an amount -/

theorem paddedDigits_digits (a : Money) : ∀ c ∈ a.paddedDigits, c.isDigit = true :=
  fun _ => isDigit_of_mem_zeros

theorem ofDigitChars_paddedDigits (a : Money) :
    Nat.ofDigitChars 10 a.paddedDigits 0 = a.mantissa.natAbs := ofDigitChars_zeros

/-- One digit at least stands before the decimals. -/
theorem scale_lt_length (a : Money) : a.scale < a.paddedDigits.length := by
  unfold paddedDigits
  rw [List.length_append, List.length_replicate]
  omega

theorem take_paddedDigits_ne_nil (a : Money) :
    a.paddedDigits.take (a.paddedDigits.length - a.scale) ≠ [] := by
  intro h
  have no_digits := congrArg List.length h
  rw [List.length_take, List.length_nil] at no_digits
  have := a.scale_lt_length
  omega

/-- Behind the sign, the characters of an amount are read as its magnitude. -/
theorem run_chars (a : Money) (negative : Bool) :
    Reading.run negative (a.paddedDigits.take (a.paddedDigits.length - a.scale) ++
      if a.scale = 0 then [] else '.' :: a.paddedDigits.drop (a.paddedDigits.length - a.scale)) =
        ofParts? (if negative then -(a.mantissa.natAbs : Int) else a.mantissa.natAbs) a.scale := by
  generalize hwhole : a.paddedDigits.take (a.paddedDigits.length - a.scale) = whole
  generalize hdecimals : a.paddedDigits.drop (a.paddedDigits.length - a.scale) = decimals
  have digits_eq : whole ++ decimals = a.paddedDigits := by
    rw [← hwhole, ← hdecimals, List.take_append_drop]
  have hlt := a.scale_lt_length
  have whole_ne : whole ≠ [] := hwhole ▸ a.take_paddedDigits_ne_nil
  have decimals_length : decimals.length = a.scale := by
    rw [← hdecimals, List.length_drop]
    omega
  have whole_digits : ∀ c ∈ whole, c.isDigit = true := fun c hc =>
    a.paddedDigits_digits c (digits_eq ▸ List.mem_append_left _ hc)
  have decimals_digits : ∀ c ∈ decimals, c.isDigit = true := fun c hc =>
    a.paddedDigits_digits c (digits_eq ▸ List.mem_append_right _ hc)
  have value : Nat.ofDigitChars 10 decimals (Nat.ofDigitChars 10 whole 0) = a.mantissa.natAbs := by
    rw [← Nat.ofDigitChars_append, digits_eq, ofDigitChars_paddedDigits]
  have fits : Nat.ofDigitChars 10 decimals (Nat.ofDigitChars 10 whole 0) < 2 ^ 96 := by
    rw [value]
    exact a.mantissa_lt
  have whole_fits := Nat.lt_of_le_of_lt (le_ofDigitChars decimals _) fits
  unfold Reading.run
  rw [List.foldlM_append, foldlM_digits (r := {}) whole_digits rfl whole_fits rfl]
  have hseen : (!whole.isEmpty) = true := by simpa using whole_ne
  by_cases h0 : a.scale = 0
  · have decimals_nil : decimals = [] := List.length_eq_zero_iff.1 (decimals_length.trans h0)
    rw [decimals_nil, Nat.ofDigitChars_nil] at value
    simp [h0, Reading.finish, hseen, value]
  · have point (m : Nat) (seen : Bool) : Reading.step ⟨m, 0, false, seen, false⟩ '.' =
        some ⟨m, 0, true, seen, false⟩ := by
      unfold Reading.step
      rw [if_neg (by decide), if_pos ⟨rfl, by simp⟩]
    have read := foldlM_digits (r := ⟨Nat.ofDigitChars 10 whole 0, 0, true, true, false⟩)
      decimals_digits rfl fits (by simpa [decimals_length] using a.scale_le)
    simp [h0, Reading.finish, hseen, point, read, value, decimals_length]

/-- **Every amount is read back from its text.** -/
theorem ofText?_toText (a : Money) : ofText? a.toText = some a := by
  have positional : ofPositional? a.chars = some a := by
    unfold chars
    cases hneg : a.isNegative with
    | true =>
      have hlt : a.mantissa < 0 := by simpa [isNegative] using hneg
      have run := a.run_chars true
      rw [if_pos rfl, show -(a.mantissa.natAbs : Int) = a.mantissa by omega,
        ofParts?_mantissa_scale] at run
      simpa [ofPositional?] using run
    | false =>
      have hle : ¬ a.mantissa < 0 := by simpa [isNegative] using hneg
      have run := a.run_chars false
      rw [if_neg Bool.false_ne_true, show (a.mantissa.natAbs : Int) = a.mantissa by omega,
        ofParts?_mantissa_scale] at run
      obtain ⟨d, ds, hwhole⟩ := List.exists_cons_of_ne_nil a.take_paddedDigits_ne_nil
      have hd : d.isDigit = true := a.paddedDigits_digits d
        (List.mem_of_mem_take (hwhole ▸ List.mem_cons_self))
      simp only [Bool.false_eq_true, if_false, List.nil_append]
      rw [hwhole, List.cons_append] at run ⊢
      unfold ofPositional?
      split
      next heq => exact absurd (List.cons.inj heq).1 (isDigit_ne hd).1
      next heq => exact absurd (List.cons.inj heq).1 (isDigit_ne hd).2.1
      next => exact run
  unfold ofText? toText ofChars?
  rw [String.toList_ofList, positional]
  rfl

end TeamLedger.Money
