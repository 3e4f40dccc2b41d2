/-
Types with a JSON form.

A record is written as an object with all its members in order. It is read from an object, where
members may stand in any order, unknown members are passed over, a known one may not occur twice,
and an optional one may be missing; or from an array of exactly its values in order. Both ways lead
to the same list of named values, so a record type says only once how it is built from them.
-/
import TeamLedger.Json
import TeamLedger.Json.Binary64
import TeamLedger.Money.Text
import TeamLedger.Instant.Text

set_option autoImplicit false

namespace TeamLedger

/-- A type whose values are written as JSON and read from it. -/
class JsonForm (α : Type) where
  toJson : α → Json
  ofJson? : Json → Option α
  /-- The value of a member that is missing, if it may be. -/
  absent? : Option α := none

export JsonForm (toJson ofJson?)

/-! ## Plain values -/

instance : JsonForm Bool where
  toJson := .bool
  ofJson? := Json.bool?

/-- An integer is at least `-2 ^ 63` and below `2 ^ 63`. -/
instance : JsonForm Int where
  toJson := .ofInt
  ofJson? j := do
    let n ← j.integer?
    if n < 2 ^ 63 then some n else none

instance : JsonForm String where
  toJson := .text
  ofJson? := Json.text?

instance : JsonForm Instant where
  toJson t := .text t.toText
  ofJson? j := j.text?.bind Instant.ofText?

/-- An amount is written as text, which keeps its decimals. It is read from a number too. -/
instance : JsonForm Money where
  toJson a := .text a.toText
  ofJson?
    | .text s => Money.ofText? s
    | .number n =>
      match n.integer? with
      | some m => Money.ofParts? m 0
      | none => n.decimalChars?.bind Money.ofPositional?
    | _ => none

instance {α : Type} [JsonForm α] : JsonForm (Option α) where
  toJson
    | none => .null
    | some a => toJson a
  ofJson?
    | .null => some none
    | j => (ofJson? j).map some
  absent? := some none

/-- An array of values. -/
instance {α : Type} [JsonForm α] : JsonForm (List α) where
  toJson as := .array (as.map toJson)
  ofJson? j := do (← j.items?).mapM ofJson?

/-! ## Records -/

/-- The values of a record by the names of its members. -/
structure Json.Members where
  list : List (String × Json)

namespace Json

/-- The named values of a record whose members have the given names, from an object or an array. -/
def members? (names : List String) : Json → Option Members
  | object members =>
    let known := members.filter fun m => names.contains m.1
    if (known.map (·.1)).Nodup then some ⟨known⟩ else none
  | array items => if items.length = names.length then some ⟨names.zip items⟩ else none
  | _ => none

/-- The value of a member; a missing one may have a value of its own. -/
def Members.get? {α : Type} [JsonForm α] (ms : Members) (name : String) : Option α :=
  match ms.list.lookup name with
  | some j => ofJson? j
  | none => JsonForm.absent?

end Json

end TeamLedger
