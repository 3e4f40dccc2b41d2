/-
Kinds and statuses, and the names they go by.

Such a type has finitely many values, each with a name of its own. Names are read from a table,
which accepts exactly the names that are written.

JSON has its own names for the values. It makes them from the titles that the values are declared
under, by their words in small letters or in capitals, and reads a value by looking its name up
among them. A value in JSON is this name, or an object whose only member has that name and the value
null. In the end these are the names that the values go by everywhere else.
-/
import TeamLedger.Json.Form

set_option autoImplicit false

namespace TeamLedger

/-! ## Titles -/

/-- The letters of the names that JSON makes from titles. -/
inductive Lettering
  | small
  | capital

namespace Lettering

def letter : Lettering → Char → Char
  | small => Char.toLower
  | capital => Char.toUpper

/-- The characters of a title with an underscore in front of every word but the first. -/
def apart : List Char → List Char
  | [] => []
  | c :: cs => c :: cs.flatMap fun c => if c.isUpper then ['_', c] else [c]

/-- The name made from a title. -/
def name (l : Lettering) (title : String) : String :=
  String.ofList ((apart title.toList).map l.letter)

end Lettering

/-- A type whose values are declared under titles. -/
class Titled (α : Type) where
  lettering : Lettering := .small
  title : α → String

/-- The name of a value in JSON. -/
def Titled.jsonName {α : Type} [Titled α] (a : α) : String := (lettering α).name (title a)

/-! ## Names -/

/-- A type of finitely many values that go by names. -/
class Named (α : Type) extends Titled α where
  /-- What the values are called in messages. -/
  noun : String
  all : List α
  name : α → String
  /-- The names that are read, and their values. -/
  names : List (String × α)
  mem_all : ∀ a, a ∈ all
  lookup_name : ∀ a, names.lookup (name a) = some a
  name_of_mem : ∀ e ∈ names, name e.2 = e.1
  name_title : ∀ a, lettering.name (title a) = name a

namespace Named

variable {α : Type} [Named α]

/-- The value with a name. -/
def ofName? (s : String) : Option α := names.lookup s

/-- Every value is read back from its name. -/
theorem ofName?_name (a : α) : ofName? (name a) = some a := lookup_name a

/-- Only the name of a value reads as that value. -/
theorem ofName?_eq_some_iff {s : String} {a : α} : ofName? s = some a ↔ name a = s := by
  constructor
  · intro h
    obtain ⟨front, back, hnames, -⟩ := List.lookup_eq_some_iff.1 h
    have hmem : (s, a) ∈ (names : List (String × α)) := by
      rw [hnames]
      exact List.mem_append_right _ List.mem_cons_self
    exact name_of_mem (s, a) hmem
  · rintro rfl
    exact ofName?_name a

/-- Two values do not share a name. -/
theorem name_injective (a b : α) (h : name a = name b) : a = b := by
  have hread := ofName?_name a
  rw [h, ofName?_name] at hread
  exact (Option.some.inj hread).symm

/-- What is reported of a name that no value has. -/
def unknownName (α : Type) [Named α] (s : String) : String :=
  "unknown " ++ noun α ++ " value '" ++ s ++ "'"

/-! ## Names in JSON -/

/-- The value whose name in JSON it is. -/
def ofJsonName? (s : String) : Option α := all.find? fun a => Titled.jsonName a == s

instance : JsonForm α where
  toJson a := .text (Titled.jsonName a)
  ofJson?
    | .text s => ofJsonName? s
    | .object [(s, .null)] => ofJsonName? s
    | _ => none

/-- A value has the same name in JSON as everywhere else. -/
theorem jsonName_eq (a : α) : Titled.jsonName a = name a := name_title a

/-- **JSON reads the names that are read everywhere else**, and as the same values. -/
theorem ofJsonName?_eq (s : String) : (ofJsonName? s : Option α) = ofName? s := by
  unfold ofJsonName?
  cases hread : (ofName? s : Option α) with
  | some a =>
    have hname : name a = s := ofName?_eq_some_iff.1 hread
    cases hfound : (all : List α).find? fun b => Titled.jsonName b == s with
    | none => exact absurd (List.find?_eq_none.1 hfound a (mem_all a)) (by simp [jsonName_eq, hname])
    | some b =>
      have hb : name b = s := by simpa [jsonName_eq] using List.find?_some hfound
      exact congrArg some (name_injective b a (hb.trans hname.symm))
  | none =>
    refine List.find?_eq_none.2 fun a _ hjson => ?_
    have hname : name a = s := by simpa [jsonName_eq] using hjson
    rw [← hname, ofName?_name] at hread
    cases hread

end Named

end TeamLedger
