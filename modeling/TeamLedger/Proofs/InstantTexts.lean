/-
Every instant with a year of four digits is read back from its text.

Reading takes more than is written: blanks, single digits, offsets, any number
of decimals. But what is written is read as the numbers that were written, part
by part (`year?_yearChars`, `part?_padded`, `decimals?_decimalChars`), and these
numbers make up the instant, because a day is the one its date says.

A leap second is written as second 60, so it can only follow the last second of
a minute (`Common`).
-/
import Mathlib.Data.List.TakeWhile
import TeamLedger.Instant.Text
import TeamLedger.Proofs.Calendar
import TeamLedger.Proofs.Digits

set_option autoImplicit false

namespace TeamLedger.Instant

open TeamLedger.Text

/-- The instant lies in a year of four digits, and within a leap second only at the end of a
minute. -/
structure Common (t : Instant) : Prop where
  year_nonneg : 0 ≤ (Date.ofDays (t.second / 86400)).year
  year_le : (Date.ofDays (t.second / 86400)).year ≤ 9999
  leap : 10 ^ 9 ≤ t.nano → t.second % 60 = 59

/-! ## Digits and marks -/

theorem skipBlanks_cons {c : Char} (h : isBlank c = false) (rest : List Char) :
    skipBlanks (c :: rest) = c :: rest :=
  List.dropWhile_cons_of_neg (by rw [h]; exact Bool.false_ne_true)

theorem isBlank_digit {c : Char} (h : c.isDigit = true) : isBlank c = false := by
  have bounds : 48 ≤ c.toNat ∧ c.toNat ≤ 57 := by
    simpa [Char.isDigit, UInt32.le_iff_toNat_le] using h
  unfold isBlank blankRanges
  simp only [List.any_cons, List.any_nil, Bool.or_false, Bool.or_eq_false_iff, Bool.and_eq_false_iff,
    decide_eq_false_iff_not]
  omega

theorem mark?_cons {m : Char} (h : isBlank m = false) (rest : List Char) :
    mark? m (m :: rest) = some rest := by
  unfold mark?
  rw [skipBlanks_cons h]
  exact if_pos rfl

section Padded

variable {width n : Nat}

theorem padded_digits : ∀ c ∈ padded width n, c.isDigit = true := fun _ => isDigit_of_mem_zeros

theorem ofDigitChars_padded : Nat.ofDigitChars 10 (padded width n) 0 = n := ofDigitChars_zeros

theorem padded_length (hpos : 0 < width) (h : n < 10 ^ width) : (padded width n).length = width := by
  have short : (Nat.toDigits 10 n).length ≤ width :=
    (Nat.length_toDigits_le_iff (by decide) hpos).2 h
  unfold padded
  rw [List.length_append, List.length_replicate]
  omega

theorem padded_ne_nil (width n : Nat) : padded width n ≠ [] :=
  List.append_ne_nil_of_right_ne_nil _ Nat.toDigits_ne_nil

/-- A padded number begins with a digit. -/
theorem padded_eq_cons (width n : Nat) :
    ∃ d ds, padded width n = d :: ds ∧ d.isDigit = true := by
  obtain ⟨d, ds, heq⟩ := List.exists_cons_of_ne_nil (padded_ne_nil width n)
  exact ⟨d, ds, heq, padded_digits d (heq ▸ List.mem_cons_self)⟩

theorem skipBlanks_padded (rest : List Char) :
    skipBlanks (padded width n ++ rest) = padded width n ++ rest := by
  obtain ⟨d, ds, heq, hd⟩ := padded_eq_cons width n
  rw [heq, List.cons_append]
  exact skipBlanks_cons (isBlank_digit hd) _

/-- Exactly the padded digits are read, whatever follows them. -/
theorem number?_padded (hpos : 0 < width) (h : n < 10 ^ width) (rest : List Char) :
    number? width (padded width n ++ rest) = some (n, rest) := by
  have taken : ((padded width n ++ rest).take width).takeWhile Char.isDigit = padded width n := by
    rw [List.take_left' (padded_length hpos h)]
    exact List.takeWhile_eq_self_iff.2 padded_digits
  unfold number?
  rw [taken]
  simp [padded_ne_nil, ofDigitChars_padded]

end Padded

/-! ## The parts of an instant -/

theorem year?_yearChars {year : Int} (h : 0 ≤ year ∧ year ≤ 9999) (rest : List Char) :
    year? (yearChars year ++ rest) = some (year, rest) := by
  obtain ⟨d, ds, heq, hd⟩ := padded_eq_cons 4 year.toNat
  have number : number? 4 (padded 4 year.toNat ++ rest) = some (year.toNat, rest) :=
    number?_padded (by decide) (by omega) rest
  have value : (year.toNat : Int) = year := Int.toNat_of_nonneg h.1
  obtain ⟨minus, plus, -⟩ := isDigit_ne hd
  unfold yearChars year?
  rw [if_pos h, skipBlanks_padded, heq, List.cons_append] at *
  split
  next hc => exact absurd (List.cons.inj hc).1 minus
  next hc => exact absurd (List.cons.inj hc).1 plus
  next => simp [number, value]

theorem part?_padded {least greatest n : Nat} (h : least ≤ n ∧ n ≤ greatest) (hlt : n < 100)
    (rest : List Char) : part? least greatest (padded 2 n ++ rest) = some (n, rest) := by
  unfold part?
  rw [skipBlanks_padded, number?_padded (by decide) hlt]
  exact if_pos h

/-- Up to nine decimals are read as nanoseconds. -/
theorem decimals?_padded {width n : Nat} (hpos : 0 < width) (hle : width ≤ 9) (h : n < 10 ^ width)
    (rest : List Char) :
    decimals? ('.' :: (padded width n ++ 'Z' :: rest)) = some (n * 10 ^ (9 - width), 'Z' :: rest) := by
  have digits : (padded width n ++ 'Z' :: rest).takeWhile Char.isDigit = padded width n := by
    rw [List.takeWhile_append_of_pos padded_digits]
    exact List.append_nil _
  have behind : (padded width n ++ 'Z' :: rest).dropWhile Char.isDigit = 'Z' :: rest := by
    rw [List.dropWhile_append_of_pos padded_digits]
    rfl
  have kept : (padded width n).take 9 = padded width n :=
    List.take_of_length_le (by rw [padded_length hpos h]; exact hle)
  unfold decimals?
  simp only [digits, behind, kept, ofDigitChars_padded, padded_length hpos h]
  simp [padded_ne_nil]

/-- The decimals left out are zeros. -/
theorem decimals?_decimalChars {nano : Nat} (h : nano < 10 ^ 9) (rest : List Char) :
    decimals? (decimalChars nano ++ 'Z' :: rest) = some (nano, 'Z' :: rest) := by
  unfold decimalChars
  split
  next none =>
    rw [none]
    rfl
  split
  next milli =>
    rw [List.cons_append, decimals?_padded (by decide) (by decide) (by omega)]
    exact congrArg (fun n => some (n, _)) (by omega)
  split
  next micro =>
    rw [List.cons_append, decimals?_padded (by decide) (by decide) (by omega)]
    exact congrArg (fun n => some (n, _)) (by omega)
  next =>
    rw [List.cons_append, decimals?_padded (by decide) (by decide) h]
    exact congrArg (fun n => some (n, _)) (by omega)

/-! ## The whole text -/

/-- The numbers of a date and a time are read as the instant they make up. -/
theorem ofChars?_parts {t : Instant} {date : Date} {hour minute second nano : Nat}
    (hdate : Date.ofDays (t.second / 86400) = date) (hyear : 0 ≤ date.year ∧ date.year ≤ 9999)
    (hhour : hour ≤ 23) (hminute : minute ≤ 59) (hsecond : second ≤ 60) (hnano : nano < 10 ^ 9)
    (htime : t.second = date.toDays * 86400 +
      ((hour * 3600 + minute * 60 + if second = 60 then 59 else second : Nat) : Int))
    (hfraction : t.nano = if second = 60 then nano + 10 ^ 9 else nano) :
    ofChars? (yearChars date.year ++ '-' :: padded 2 date.month ++ '-' :: padded 2 date.day ++
      'T' :: padded 2 hour ++ ':' :: padded 2 minute ++ ':' :: padded 2 second ++
      decimalChars nano ++ ['Z']) = some t := by
  obtain ⟨hmonth, hday⟩ := hdate ▸ Date.ofDays_bounds (t.second / 86400)
  have valid : date.isValid = true := hdate ▸ Date.isValid_ofDays (t.second / 86400)
  have inRange : yearInRange date.year = true := by
    unfold yearInRange
    simp only [Bool.and_eq_true, decide_eq_true_eq]
    omega
  have dash := mark?_cons (show isBlank '-' = false by decide)
  have colon := mark?_cons (show isBlank ':' = false by decide)
  unfold ofChars?
  simp only [List.append_assoc, List.cons_append]
  -- part by part from the left; the `T` needs no step, since it is compared with itself
  refine Option.bind_eq_some_iff.2 ⟨_, year?_yearChars hyear _, ?_⟩
  refine Option.bind_eq_some_iff.2 ⟨_, dash _, ?_⟩
  refine Option.bind_eq_some_iff.2 ⟨_, part?_padded hmonth (by omega) _, ?_⟩
  refine Option.bind_eq_some_iff.2 ⟨_, dash _, ?_⟩
  refine Option.bind_eq_some_iff.2 ⟨_, part?_padded hday (by omega) _, ?_⟩
  refine Option.bind_eq_some_iff.2 ⟨_, part?_padded ⟨Nat.zero_le hour, hhour⟩ (by omega) _, ?_⟩
  refine Option.bind_eq_some_iff.2 ⟨_, colon _, ?_⟩
  refine Option.bind_eq_some_iff.2
    ⟨_, part?_padded ⟨Nat.zero_le minute, hminute⟩ (by omega) _, ?_⟩
  refine Option.bind_eq_some_iff.2 ⟨_, colon _, ?_⟩
  refine Option.bind_eq_some_iff.2
    ⟨_, part?_padded ⟨Nat.zero_le second, hsecond⟩ (by omega) _, ?_⟩
  refine Option.bind_eq_some_iff.2 ⟨_, decimals?_decimalChars hnano [], ?_⟩
  refine Option.bind_eq_some_iff.2 ⟨(0, []), rfl, ?_⟩
  dsimp only
  have fits := t.nano_lt
  rw [hfraction] at fits
  rw [dif_pos fits]
  simp only [Int.sub_zero, ← htime, ← hfraction]
  exact if_pos ⟨rfl, valid, inRange, hdate ▸ inRange⟩

/-- **An instant with a year of four digits is read back from its text.** -/
theorem ofText?_toText {t : Instant} (h : t.Common) : ofText? t.toText = some t := by
  have hlt := t.nano_lt
  have day := Date.toDays_ofDays (t.second / 86400)
  have year : 0 ≤ (Date.ofDays (t.second / 86400)).year ∧
      (Date.ofDays (t.second / 86400)).year ≤ 9999 := ⟨h.year_nonneg, h.year_le⟩
  have leap := h.leap
  unfold ofText? toText chars
  rw [String.toList_ofList]
  dsimp only
  split
  next leaps =>
    refine ofChars?_parts rfl year (by omega) (by omega) (by omega) (by omega) ?_ ?_
    · rw [day, if_pos (by omega)]
      omega
    · rw [if_pos (by omega)]
      omega
  next plain =>
    refine ofChars?_parts rfl year (by omega) (by omega) (by omega) (by omega) ?_ ?_
    · rw [day, if_neg (by omega)]
      omega
    · rw [if_neg (by omega)]

end TeamLedger.Instant
