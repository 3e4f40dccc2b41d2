/-
The ways to give a value in JSON.

Plain values have one spelling here, the one that is written. A record has many:
it is an object whose members stand in any order, with unknown ones among them
and optional ones left out when they have no value, or it is the array of its
values; and the records within it have as many again (`Record.Spells`).

Whatever the spelling, the reader ends up with the named values of the members
in some order, each at most once (`Record.Given`). So all that is shown about a
single type of records is what it makes of these (`Record.ofJson?_eq`).
-/
import Mathlib.Data.List.Forall2
import TeamLedger.Proofs.JsonForms

set_option autoImplicit false

namespace TeamLedger

/-- A type whose values JSON can spell: those that fit are read back from what is written, and from
every other spelling of theirs. -/
class Spelling (α : Type) [JsonForm α] where
  /-- JSON has room for the value. -/
  Fits : α → Prop
  /-- The JSON is one for the value. -/
  Spells : α → Json → Prop
  readable {a : α} : Fits a → (toJson a).Readable
  spells_toJson {a : α} : Fits a → Spells a (toJson a)
  not_null {a : α} {j : Json} : Spells a j → j ≠ .null
  ofJson?_of_spells {a : α} {j : Json} : Fits a → Spells a j → ofJson? j = some a

export Spelling (Fits Spells)

theorem Spelling.readBack {α : Type} [JsonForm α] [Spelling α] {a : α} (h : Fits a) : ReadBack a :=
  ⟨readable h, ofJson?_of_spells h (spells_toJson h)⟩

/-! ## Plain values -/

/-- Values that are read back from what is written, with no other spelling. -/
@[reducible]
def Spelling.ofReadBack {α : Type} [JsonForm α] (fits : α → Prop)
    (readBack : ∀ {a}, fits a → ReadBack a) (not_null : ∀ a : α, toJson a ≠ .null) : Spelling α where
  Fits := fits
  Spells a j := j = toJson a
  readable h := (readBack h).readable
  spells_toJson _ := rfl
  not_null h := h ▸ not_null _
  ofJson?_of_spells h hj := hj ▸ (readBack h).ofJson?

instance : Spelling Bool := .ofReadBack (fun _ => True) (fun _ => readBack_bool _) fun _ => nofun

/-- An integer fits if it has 64 bits. -/
instance : Spelling Int := .ofReadBack (fun n => -2 ^ 63 ≤ n ∧ n < 2 ^ 63) readBack_int fun _ => nofun

instance : Spelling String := .ofReadBack (fun _ => True) (fun _ => readBack_string _) fun _ => nofun

/-- An instant fits if its year has four digits. -/
instance : Spelling Instant := .ofReadBack Instant.Common readBack_instant fun _ => nofun

instance : Spelling Money := .ofReadBack (fun _ => True) (fun _ => readBack_money _) fun _ => nofun

instance {α : Type} [Named α] : Spelling α :=
  .ofReadBack (fun _ => True) (fun _ => readBack_named _) fun _ => nofun

/-! ## Members of a record -/

/-- A member of a record with its name and value. An optional member may have none. -/
inductive Member : Type 1
  | required (name : String) {α : Type} [JsonForm α] [Spelling α] (a : α)
  | optional (name : String) {α : Type} [JsonForm α] [Spelling α] (o : Option α)

namespace Member

def name : Member → String
  | required name _ | optional name _ => name

/-- What is written for the value. -/
def json : Member → Json
  | required _ a => toJson a
  | optional _ o => toJson o

/-- JSON has room for the value, if there is one. -/
def Fits : Member → Prop
  | required _ a => Spelling.Fits a
  | optional _ o => ∀ a ∈ o, Spelling.Fits a

/-- The JSON is one for the value; a missing value is null. -/
def Spells : Member → Json → Prop
  | required _ a, j => Spelling.Spells a j
  | optional _ none, j => j = .null
  | optional _ (some a), j => Spelling.Spells a j

/-- An object does not need the member. -/
def MayMiss : Member → Prop
  | required _ _ => False
  | optional _ o => o = none

/-- The value is found among the named values of a record. -/
def Found (ms : Json.Members) : Member → Prop
  | required name a => ms.get? name = some a
  | optional name o => ms.get? name = some o

theorem readable {m : Member} (h : m.Fits) : m.json.Readable := by
  cases m with
  | required name a => exact Spelling.readable h
  | optional name o =>
    cases o with
    | none => exact .null
    | some a => exact (Spelling.readable (h a rfl) : (toJson a).Readable)

theorem spells_json {m : Member} (h : m.Fits) : m.Spells m.json := by
  cases m with
  | required name a => exact Spelling.spells_toJson h
  | optional name o =>
    cases o with
    | none => rfl
    | some a => exact Spelling.spells_toJson (h a rfl)

/-- What is not null is read as a value, where one is optional. -/
theorem ofJson?_option {α : Type} [JsonForm α] {j : Json} (hne : j ≠ .null) :
    (ofJson? j : Option (Option α)) = (ofJson? j : Option α).map some := by
  cases j <;> first | rfl | exact absurd rfl hne

/-- A member is found in what it is spelled as. -/
theorem found_of_spells {m : Member} {ms : Json.Members} {j : Json} (h : m.Fits)
    (hlookup : ms.list.lookup m.name = some j) (hj : m.Spells j) : m.Found ms := by
  cases m with
  | required name a =>
    show ms.get? name = some a
    unfold Json.Members.get?
    rw [show ms.list.lookup name = some j from hlookup]
    exact Spelling.ofJson?_of_spells h hj
  | optional name o =>
    show ms.get? name = some o
    unfold Json.Members.get?
    rw [show ms.list.lookup name = some j from hlookup]
    cases o with
    | none =>
      obtain rfl : j = .null := hj
      rfl
    | some a =>
      show ofJson? j = some (some a)
      rw [ofJson?_option (Spelling.not_null hj), Spelling.ofJson?_of_spells (h a rfl) hj]
      rfl

/-- A member without a value is found where there is none. -/
theorem found_of_mayMiss {m : Member} {ms : Json.Members} (h : m.MayMiss)
    (hlookup : ms.list.lookup m.name = none) : m.Found ms := by
  cases m with
  | required name a => exact h.elim
  | optional name o =>
    obtain rfl : o = none := h
    show ms.get? name = some none
    unfold Json.Members.get?
    rw [show ms.list.lookup name = none from hlookup]
    rfl

end Member

/-! ## Spellings of a record -/

namespace Record

/-- The members of a record as they may be given in an object, in their own order: with a spelling
of the value, or not at all if there is none. -/
inductive Given : List Member → List (String × Json) → Prop
  | nil : Given [] []
  | member {m : Member} {j : Json} {members : List Member} {given : List (String × Json)} :
    m.Spells j → Given members given → Given (m :: members) ((m.name, j) :: given)
  | leftOut {m : Member} {members : List Member} {given : List (String × Json)} :
    m.MayMiss → Given members given → Given (m :: members) given

/-- The ways to give a record in JSON. -/
inductive Spells (members : List Member) : Json → Prop
  /-- An object has the members in any order, and unknown ones. -/
  | object {given unknown all : List (String × Json)} (hgiven : Given members given)
    (hunknown : ∀ u ∈ unknown, u.1 ∉ members.map Member.name) (hall : all.Perm (given ++ unknown)) :
    Spells members (.object all)
  /-- An array has a value for every member in order. -/
  | array {items : List Json} (hitems : List.Forall₂ Member.Spells members items) :
    Spells members (.array items)

variable {members : List Member} {given : List (String × Json)}

theorem Given.sublist (h : Given members given) :
    (given.map (·.1)).Sublist (members.map Member.name) := by
  induction h with
  | nil => exact .slnil
  | member _ _ ih => exact ih.cons_cons _
  | leftOut _ _ ih => exact ih.cons _

/-- Every member is given with a spelling, or is missing and may be. -/
theorem Given.cases_of_mem (h : Given members given) (hnodup : (members.map Member.name).Nodup)
    {m : Member} (hm : m ∈ members) :
    (∃ j, (m.name, j) ∈ given ∧ m.Spells j) ∨ m.MayMiss ∧ m.name ∉ given.map (·.1) := by
  induction h with
  | nil => cases hm
  | @member m' j members given hj hgiven ih =>
    obtain ⟨hnew, hnodup⟩ := List.nodup_cons.1 hnodup
    rcases List.mem_cons.1 hm with rfl | hm
    · exact .inl ⟨j, List.mem_cons_self, hj⟩
    · refine (ih hnodup hm).imp ?_ ?_
      · rintro ⟨i, hi, hspells⟩
        exact ⟨i, List.mem_cons_of_mem _ hi, hspells⟩
      · rintro ⟨hmiss, hnot⟩
        have hne : m.name ≠ m'.name := fun heq => hnew (heq ▸ List.mem_map_of_mem hm)
        exact ⟨hmiss, fun hmem => (List.mem_cons.1 hmem).elim hne hnot⟩
  | @leftOut m' members given hmiss hgiven ih =>
    obtain ⟨hnew, hnodup⟩ := List.nodup_cons.1 hnodup
    rcases List.mem_cons.1 hm with rfl | hm
    · exact .inr ⟨hmiss, fun hmem => hnew (hgiven.sublist.subset hmem)⟩
    · exact ih hnodup hm

/-- What is written is a spelling. -/
theorem given_json (h : ∀ m ∈ members, m.Fits) :
    Given members (members.map fun m => (m.name, m.json)) := by
  induction members with
  | nil => exact .nil
  | cons m members ih =>
    obtain ⟨hm, hmembers⟩ := List.forall_mem_cons.1 h
    exact .member (Member.spells_json hm) (ih hmembers)

/-- An array gives all the members. -/
theorem given_zip {items : List Json} (h : List.Forall₂ Member.Spells members items) :
    Given members ((members.map Member.name).zip items) := by
  induction h with
  | nil => exact .nil
  | cons hj _ ih => exact .member hj ih

/-- With no name twice, a named value is found by its name. -/
theorem lookup_of_mem {l : List (String × Json)} (hnodup : (l.map (·.1)).Nodup) {p : String × Json}
    (hp : p ∈ l) : l.lookup p.1 = some p.2 := by
  induction l with
  | nil => cases hp
  | cons q l ih =>
    obtain ⟨hnew, hnodup⟩ := List.nodup_cons.1 hnodup
    rcases List.mem_cons.1 hp with rfl | hp
    · exact List.lookup_cons_self
    · have hne : p.1 ≠ q.1 := fun heq => hnew (List.mem_map.2 ⟨p, hp, heq⟩)
      rw [List.lookup_cons, beq_eq_false_iff_ne.2 hne]
      exact ih hnodup hp

/-- Members that are given are found, whatever their order. -/
theorem Given.found (h : Given members given) (hnodup : (members.map Member.name).Nodup)
    (hfits : ∀ m ∈ members, m.Fits) {ms : Json.Members} (hperm : ms.list.Perm given) :
    ∀ m ∈ members, m.Found ms := by
  intro m hm
  have keys : (ms.list.map (·.1)).Nodup :=
    (hperm.map _).nodup_iff.2 (h.sublist.nodup hnodup)
  rcases h.cases_of_mem hnodup hm with ⟨j, hj, hspells⟩ | ⟨hmiss, hnot⟩
  · exact Member.found_of_spells (hfits m hm) (lookup_of_mem keys (hperm.mem_iff.2 hj)) hspells
  · refine Member.found_of_mayMiss hmiss (List.lookup_eq_none_iff.2 fun p hp => ?_)
    have hne : m.name ≠ p.1 := fun heq =>
      hnot (List.mem_map.2 ⟨p, hperm.mem_iff.1 hp, heq.symm⟩)
    exact bne_iff_ne.2 hne

/-- **From every spelling** of a record, the reader gets the values of its members. -/
theorem Spells.found {j : Json} (h : Spells members j) (hnodup : (members.map Member.name).Nodup)
    (hfits : ∀ m ∈ members, m.Fits) :
    ∃ ms, j.members? (members.map Member.name) = some ms ∧ ∀ m ∈ members, m.Found ms := by
  cases h with
  | @object given unknown all hgiven hunknown hall =>
    have known : all.filter (fun m => (members.map Member.name).contains m.1) |>.Perm given := by
      have of_given : given.filter (fun m => (members.map Member.name).contains m.1) = given :=
        List.filter_eq_self.2 fun m hm =>
          List.contains_iff_mem.2 (hgiven.sublist.subset (List.mem_map_of_mem hm))
      have of_unknown : unknown.filter (fun m => (members.map Member.name).contains m.1) = [] :=
        List.filter_eq_nil_iff.2 fun u hu hcontains =>
          hunknown u hu (List.contains_iff_mem.1 hcontains)
      have split := hall.filter fun m => (members.map Member.name).contains m.1
      rwa [List.filter_append, of_given, of_unknown, List.append_nil] at split
    refine ⟨⟨_⟩, if_pos ?_, hgiven.found hnodup hfits known⟩
    exact (known.map _).nodup_iff.2 (hgiven.sublist.nodup hnodup)
  | @array items hitems =>
    have length : items.length = (members.map Member.name).length := by
      rw [List.length_map, hitems.length_eq]
    exact ⟨⟨_⟩, if_pos length, (given_zip hitems).found hnodup hfits (.refl _)⟩

end Record

/-! ## Types of records -/

/-- A type of records: it is written member by member, and read from the values of its members. Once
the members are named, the rest is checked by going through them. -/
class Record (α : Type) [JsonForm α] where
  /-- The members of a value, in order. -/
  members : α → List Member
  names : List String
  names_nodup : names.Nodup := by decide
  map_name (a : α) : (members a).map Member.name = names := by intro; rfl
  toJson_eq (a : α) : toJson a = .object ((members a).map fun m => (m.name, m.json)) := by
    intro
    rfl
  ofJson?_eq {a : α} {j : Json} {ms : Json.Members} :
    j.members? names = some ms → (∀ m ∈ members a, m.Found ms) → ofJson? j = some a := by
    intro _ _ _ hms found
    simp only [List.forall_mem_cons, Member.Found] at found
    refine Option.bind_eq_some_iff.2 ⟨_, hms, ?_⟩
    simp only [found, Option.bind_eq_bind, Option.bind_some]

/-- A record fits if all its members do. -/
instance {α : Type} [JsonForm α] [Record α] : Spelling α where
  Fits a := ∀ m ∈ Record.members a, m.Fits
  Spells a j := Record.Spells (Record.members a) j
  readable {a} h := by
    rw [Record.toJson_eq]
    refine .object fun p hp => ?_
    obtain ⟨m, hm, rfl⟩ := List.mem_map.1 hp
    exact Member.readable (h m hm)
  spells_toJson {a} h := by
    rw [Record.toJson_eq]
    exact .object (Record.given_json h) (fun _ hu => absurd hu List.not_mem_nil)
      (by rw [List.append_nil])
  not_null h := by
    cases h <;> nofun
  ofJson?_of_spells {a j} hfits h := by
    have nodup : ((Record.members a).map Member.name).Nodup := by
      rw [Record.map_name]
      exact Record.names_nodup
    obtain ⟨ms, hms, hfound⟩ := h.found nodup hfits
    rw [Record.map_name] at hms
    exact Record.ofJson?_eq hms hfound

end TeamLedger
