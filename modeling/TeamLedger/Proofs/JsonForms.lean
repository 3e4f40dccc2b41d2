/-
Values that are read back from their JSON.

A value is read back (`ReadBack`) if its JSON has a text and leads to the value
again; then its text does too (`ReadBack.ofText?`). Most types have this for
every value. Integers have it as far as they fit 64 bits, and instants in the
years of four digits.
-/
import TeamLedger.Named
import TeamLedger.Proofs.InstantTexts
import TeamLedger.Proofs.JsonTexts
import TeamLedger.Proofs.MoneyTexts

set_option autoImplicit false

namespace TeamLedger

/-- The value has a text as JSON, and is what its JSON is read as. -/
structure ReadBack {α : Type} [JsonForm α] (a : α) : Prop where
  readable : (toJson a).Readable
  ofJson? : ofJson? (toJson a) = some a

/-- **From the text**, too, the value is read back. -/
theorem ReadBack.ofText? {α : Type} [JsonForm α] {a : α} (h : ReadBack a) :
    (Json.ofText? (toJson a).toText).bind JsonForm.ofJson? = some a := by
  rw [Json.ofText?_toText h.readable, Option.bind_some, h.ofJson?]

/-! ## Plain values -/

theorem readBack_bool (b : Bool) : ReadBack b := ⟨.bool b, rfl⟩

theorem Json.integer?_ofInt {n : Int} (h : -2 ^ 63 ≤ n) (h' : n < 2 ^ 64) :
    (Json.ofInt n).integer? = some n := by
  have plain : ¬ (¬ (Number.ofInt n).decimals.isEmpty ∨ (Number.ofInt n).exponent.isSome) := by
    simp [Number.ofInt]
  have whole_eq : (Number.ofInt n).wholeValue = n.natAbs :=
    Nat.ofDigitChars_toDigits (by decide) (by decide)
  show (Number.ofInt n).integer? = some n
  unfold Number.integer?
  rw [if_neg plain, whole_eq]
  by_cases hneg : n < 0
  · have bounds : 0 < n.natAbs ∧ n.natAbs ≤ 2 ^ 63 := by omega
    have value : -(n.natAbs : Int) = n := by omega
    rw [if_pos (show (Number.ofInt n).negative = true from decide_eq_true hneg), if_pos bounds, value]
  · have bound : n.natAbs < 2 ^ 64 := by omega
    have value : (n.natAbs : Int) = n := by omega
    have unsigned : ¬ (Number.ofInt n).negative = true := by simpa [Number.ofInt] using hneg
    rw [if_neg unsigned, if_pos bound, value]

theorem readBack_int {n : Int} (h : -2 ^ 63 ≤ n ∧ n < 2 ^ 63) : ReadBack n where
  readable := .number (Json.Number.wellFormed_ofInt n)
  ofJson? := by
    have integer := Json.integer?_ofInt h.1 (by omega)
    show (do
      let m ← (Json.ofInt n).integer?
      if m < 2 ^ 63 then some m else none) = some n
    rw [integer]
    exact if_pos h.2

theorem readBack_string (s : String) : ReadBack s := ⟨.text s, rfl⟩

theorem readBack_instant {t : Instant} (h : t.Common) : ReadBack t where
  readable := .text t.toText
  ofJson? := by
    show (some t.toText).bind Instant.ofText? = some t
    rw [Option.bind_some, Instant.ofText?_toText h]

theorem readBack_money (a : Money) : ReadBack a := ⟨.text _, Money.ofText?_toText a⟩

theorem readBack_named {α : Type} [Named α] (a : α) : ReadBack a where
  readable := .text _
  ofJson? := by
    show Named.ofJsonName? (Titled.jsonName a) = some a
    rw [Named.ofJsonName?_eq, Named.jsonName_eq, Named.ofName?_name]

end TeamLedger
