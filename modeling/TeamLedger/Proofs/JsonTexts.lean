/-
Every value that is written is read back.

Reading is more generous than writing, so what is read need not be what is
written: there are blanks, other escapes, other spellings of a number. But the
text of a value is always read as this value (`ofText?_toText`), whatever
characters its texts have and however deeply it is nested.

A value is read off the front of what follows it, and a number ends where
something else begins; so all statements are about a text with something behind
it. The reader counts the calls that are nested in each other and starts with
twice as many as there are characters. Induction on this number covers values,
items and members at once, and what remains of it is always enough.
-/
import TeamLedger.Json.Text
import TeamLedger.Proofs.Digits

set_option autoImplicit false

namespace TeamLedger.Json

/-! ## Texts -/

theorem fourHex?_fourHexDigits : ∀ n < 32, (match fourHexDigits n with
    | [a, b, c, d] => fourHex? a b c d
    | _ => none) = some n := by
  decide

/-- A character that is no quote and no backslash and is not below the space stands for itself. -/
theorem codes?_cons {c : Char} (hquote : c ≠ '"') (hbackslash : c ≠ '\\') (hspace : ¬ c.toNat < 32)
    (rest : List Char) :
    codes? (c :: rest) = (codes? rest).map fun r => (c.toNat :: r.1, r.2) := by
  rw [codes?]
  · simp only [hspace, if_false]
    cases codes? rest <;> rfl
  · exact fun h => absurd h hquote
  · exact fun _ _ _ _ _ h => absurd h hbackslash
  · exact fun _ _ h => absurd h hbackslash

/-- Two characters of an escape stand for one. -/
theorem codes?_escaped {e : Char} {code : Nat} (he : e ≠ 'u') (h : escaped? e = some code)
    (rest : List Char) :
    codes? ('\\' :: e :: rest) = (codes? rest).map fun r => (code :: r.1, r.2) := by
  rw [codes?]
  · rw [h]
    cases codes? rest <;> rfl
  · exact fun _ _ _ _ _ hu _ => absurd hu he

/-- A character is escaped by one other character, or by the digits of its code, or it stands for
itself. -/
theorem escape_cases (c : Char) :
    (∃ e, escape c = ['\\', e] ∧ e ≠ 'u' ∧ escaped? e = some c.toNat) ∨
      c.toNat < 32 ∧ escape c = '\\' :: 'u' :: fourHexDigits c.toNat ∨
        escape c = [c] ∧ c ≠ '"' ∧ c ≠ '\\' ∧ ¬ c.toNat < 32 := by
  unfold escape
  split
  next h => exact .inl ⟨'"', rfl, by decide, by rw [h]; rfl⟩
  split
  next h => exact .inl ⟨'\\', rfl, by decide, by rw [h]; rfl⟩
  split
  next h => exact .inl ⟨'n', rfl, by decide, h ▸ rfl⟩
  split
  next h => exact .inl ⟨'r', rfl, by decide, h ▸ rfl⟩
  split
  next h => exact .inl ⟨'t', rfl, by decide, h ▸ rfl⟩
  split
  next h => exact .inl ⟨'b', rfl, by decide, h ▸ rfl⟩
  split
  next h => exact .inl ⟨'f', rfl, by decide, h ▸ rfl⟩
  split
  next h => exact .inr (.inl ⟨h, rfl⟩)
  next hquote hbackslash _ _ _ _ _ hspace => exact .inr (.inr ⟨rfl, hquote, hbackslash, hspace⟩)

/-- An escape is read as the character that it is for. -/
theorem codes?_escape (c : Char) (rest : List Char) :
    codes? (escape c ++ rest) = (codes? rest).map fun r => (c.toNat :: r.1, r.2) := by
  rcases escape_cases c with ⟨e, heq, he, hcode⟩ | ⟨hspace, heq⟩ | ⟨heq, hquote, hbackslash, hspace⟩
  · rw [heq]
    exact codes?_escaped he hcode rest
  · have digits := fourHex?_fourHexDigits c.toNat hspace
    rw [heq]
    split at digits
    next x1 x2 x3 x4 hfour =>
      rw [hfour]
      cases hr : codes? rest <;> simp [codes?, hr, digits]
    next => cases digits
  · rw [heq]
    exact codes?_cons hquote hbackslash hspace rest

theorem codes?_flatMap_escape (cs rest : List Char) :
    codes? (cs.flatMap escape ++ '"' :: rest) = some (cs.map Char.toNat, rest) := by
  induction cs with
  | nil => rfl
  | cons c cs ih =>
    rw [List.flatMap_cons, List.append_assoc, codes?_escape, ih]
    rfl

/-- The code of a character is not that of half of one. -/
theorem not_half (c : Char) : isFirstHalf c.toNat = false ∧ isSecondHalf c.toNat = false := by
  have hvalid : c.toNat < 0xD800 ∨ 0xDFFF < c.toNat ∧ c.toNat < 0x110000 := c.valid
  unfold isFirstHalf isSecondHalf
  simp only [Bool.and_eq_false_iff, decide_eq_false_iff_not]
  omega

theorem ofCodes?_map_toNat (cs : List Char) : ofCodes? (cs.map Char.toNat) = some cs := by
  induction cs with
  | nil => rfl
  | cons c cs ih =>
    obtain ⟨hfirst, hsecond⟩ := not_half c
    cases cs with
    | nil => simp [ofCodes?, hfirst, hsecond]
    | cons d cs =>
      rw [List.map_cons] at ih
      simp [ofCodes?, hfirst, hsecond, ih]

/-- **A text** is read up to its closing quote. -/
theorem textBody?_quoted (s : String) (rest : List Char) :
    textBody? (s.toList.flatMap escape ++ '"' :: rest) = some (some s, rest) := by
  unfold textBody?
  rw [codes?_flatMap_escape]
  simp [ofCodes?_map_toNat]

/-! ## Numbers -/

/-- Behind these characters a number is at its end. -/
def Stops (rest : List Char) : Prop :=
  ∀ c ∈ rest.head?, c.isDigit = false ∧ c ≠ '.' ∧ c ≠ 'e' ∧ c ≠ 'E'

namespace Number

/-- The number is written as numbers have to be: there are digits before the point, a zero in front
only if it is alone, and digits in the exponent. -/
structure WellFormed (n : Number) : Prop where
  whole_ne : n.whole ≠ []
  whole_digits : ∀ c ∈ n.whole, c.isDigit = true
  zero_alone : n.whole.head? = some '0' → n.whole.length = 1
  decimals_digits : ∀ c ∈ n.decimals, c.isDigit = true
  exponent_digits : ∀ negative ds, n.exponent = some (negative, ds) →
    ds ≠ [] ∧ ∀ c ∈ ds, c.isDigit = true

end Number

/-- Digits are read as far as there are any. -/
theorem digits?_append {ds rest : List Char} (hne : ds ≠ []) (hds : ∀ c ∈ ds, c.isDigit = true)
    (hrest : ∀ c ∈ rest.head?, c.isDigit = false) : digits? (ds ++ rest) = some (ds, rest) := by
  have stop : rest.takeWhile Char.isDigit = [] ∧ rest.dropWhile Char.isDigit = rest := by
    cases rest with
    | nil => exact ⟨rfl, rfl⟩
    | cons c rest =>
      have hc := hrest c rfl
      simp [hc]
  unfold digits?
  rw [List.takeWhile_append_of_pos hds, List.dropWhile_append_of_pos hds, stop.1, stop.2,
    List.append_nil]
  simp [hne]

namespace Number

/-- The characters of the decimals. -/
def decimalChars (n : Number) : List Char := if n.decimals.isEmpty then [] else '.' :: n.decimals

/-- The characters of the exponent. -/
def exponentChars (n : Number) : List Char :=
  match n.exponent with
  | none => []
  | some (negative, ds) => 'e' :: (if negative then ['-'] else []) ++ ds

end Number

variable {n : Number} {rest : List Char}

theorem exponent?_exponentChars (h : n.WellFormed) (hrest : Stops rest) :
    exponent? (n.exponentChars ++ rest) = some (n.exponent, rest) := by
  have no_digit : ∀ c ∈ rest.head?, c.isDigit = false := fun c hc => (hrest c hc).1
  unfold Number.exponentChars
  cases hexp : n.exponent with
  | none =>
    cases rest with
    | nil => rfl
    | cons c rest =>
      obtain ⟨-, -, he, hE⟩ := hrest c rfl
      simp [exponent?, he, hE]
  | some e =>
    obtain ⟨negative, ds⟩ := e
    obtain ⟨hne, hds⟩ := h.exponent_digits negative ds hexp
    have digits := digits?_append hne hds no_digit
    cases negative with
    | true => simp [exponent?, digits]
    | false =>
      obtain ⟨d, ds, rfl⟩ := List.exists_cons_of_ne_nil hne
      obtain ⟨hminus, hplus, -⟩ := isDigit_ne (hds d List.mem_cons_self)
      rw [List.cons_append] at digits
      simp only [exponent?, List.cons_append, List.nil_append, Bool.false_eq_true, if_false, true_or,
        if_true]
      split
      next heq => exact absurd (List.cons.inj heq).1 hminus
      next heq => exact absurd (List.cons.inj heq).1 hplus
      next => simp [digits]

theorem decimals?_decimalChars (h : n.WellFormed) (hrest : Stops rest) :
    decimals? (n.decimalChars ++ (n.exponentChars ++ rest)) =
      some (n.decimals, n.exponentChars ++ rest) := by
  have head_of_rest : ∀ c ∈ (n.exponentChars ++ rest).head?, c.isDigit = false ∧ c ≠ '.' := by
    unfold Number.exponentChars
    cases n.exponent with
    | none => exact fun c hc => ⟨(hrest c hc).1, (hrest c hc).2.1⟩
    | some e =>
      rintro c ⟨⟩
      exact ⟨by decide, by decide⟩
  unfold Number.decimalChars
  cases hdec : n.decimals with
  | nil =>
    show decimals? (n.exponentChars ++ rest) = _
    unfold decimals?
    split
    next heq =>
      rw [heq] at head_of_rest
      exact absurd rfl (head_of_rest '.' rfl).2
    next => rfl
  | cons d ds =>
    refine digits?_append (List.cons_ne_nil d ds) ?_ fun c hc => (head_of_rest c hc).1
    rw [← hdec]
    exact h.decimals_digits

/-- Reads a number behind its sign. -/
def unsigned? (negative : Bool) (cs : List Char) : Option (Number × List Char) := do
  let (whole, cs) ← digits? cs
  if whole.head? = some '0' ∧ whole.length ≠ 1 then none
  let (decimals, cs) ← decimals? cs
  let (exponent, cs) ← exponent? cs
  some (⟨negative, whole, decimals, exponent⟩, cs)

theorem number?_minus (cs : List Char) : number? ('-' :: cs) = unsigned? true cs := rfl

theorem number?_of_ne {c : Char} (hc : c ≠ '-') (cs : List Char) :
    number? (c :: cs) = unsigned? false (c :: cs) := by
  unfold number? unsigned?
  split
  next heq =>
    split at heq
    next hminus => exact absurd (List.cons.inj hminus).1 hc
    next =>
      cases heq
      rfl

/-- **A number** is read up to where something else begins. -/
theorem number?_chars (h : n.WellFormed) (hrest : Stops rest) :
    number? (n.chars ++ rest) = some (n, rest) := by
  have chars_eq : n.chars ++ rest = (if n.negative then ['-'] else []) ++
      (n.whole ++ (n.decimalChars ++ (n.exponentChars ++ rest))) := by
    simp only [Number.chars, List.append_assoc]
    rfl
  have no_digit : ∀ c ∈ (n.decimalChars ++ (n.exponentChars ++ rest)).head?, c.isDigit = false := by
    unfold Number.decimalChars Number.exponentChars
    cases n.decimals with
    | nil =>
      cases n.exponent with
      | none => exact fun c hc => (hrest c hc).1
      | some e =>
        rintro c ⟨⟩
        decide
    | cons d ds =>
      rintro c ⟨⟩
      decide
  have unsigned : unsigned? n.negative (n.whole ++ (n.decimalChars ++ (n.exponentChars ++ rest))) =
      some (n, rest) := by
    have zero : ¬ (n.whole.head? = some '0' ∧ n.whole.length ≠ 1) := fun ⟨hhead, hlen⟩ =>
      hlen (h.zero_alone hhead)
    unfold unsigned?
    rw [digits?_append h.whole_ne h.whole_digits no_digit]
    simp [zero, decimals?_decimalChars h hrest, exponent?_exponentChars h hrest]
  rw [chars_eq]
  cases hneg : n.negative with
  | true =>
    rw [hneg] at unsigned
    exact (number?_minus _).trans unsigned
  | false =>
    obtain ⟨d, ds, hwhole⟩ := List.exists_cons_of_ne_nil h.whole_ne
    have hd := (isDigit_ne (h.whole_digits d (by simp [hwhole]))).1
    rw [hneg, hwhole, List.cons_append] at unsigned
    rw [hwhole, List.cons_append]
    exact (number?_of_ne hd _).trans unsigned

/-- An integer is written as numbers have to be. -/
theorem Number.wellFormed_ofInt (m : Int) : (Number.ofInt m).WellFormed where
  whole_ne := Nat.toDigits_ne_nil
  whole_digits c hc := Nat.isDigit_of_mem_toDigits (by decide) (by decide) hc
  zero_alone := by
    -- only the digits of zero begin with a zero
    have head_zero : ∀ k : Nat, (Nat.toDigits 10 k).head? = some '0' → k = 0 := by
      intro k
      induction k using Nat.strongRecOn with
      | _ k ih =>
        intro hk
        by_cases hlt : k < 10
        · rw [Nat.toDigits_of_lt_base hlt] at hk
          have digit : ∀ j < 10, Nat.digitChar j = '0' → j = 0 := by decide
          exact digit k hlt (Option.some.inj hk)
        · rw [Nat.toDigits_of_base_le (by decide) (by omega)] at hk
          have hne : Nat.toDigits 10 (k / 10) ≠ [] := Nat.toDigits_ne_nil
          rw [List.head?_append, Option.or_of_isSome (by simp)] at hk
          have := ih (k / 10) (by omega) hk
          omega
    intro hhead
    show (Nat.toDigits 10 m.natAbs).length = 1
    rw [head_zero m.natAbs hhead]
    rfl
  decimals_digits _ hc := nomatch hc
  exponent_digits _ _ h := nomatch h

/-! ## Values -/

/-- The value has a text: its numbers are well formed, and no part of it holds half of a character. -/
inductive Readable : Json → Prop
  | null : Readable .null
  | bool (b : Bool) : Readable (.bool b)
  | number {n : Number} (h : n.WellFormed) : Readable (.number n)
  | text (s : String) : Readable (.text s)
  | array {items : List Json} (h : ∀ v ∈ items, v.Readable) : Readable (.array items)
  | object {members : List (String × Json)} (h : ∀ m ∈ members, m.2.Readable) :
    Readable (.object members)

theorem Number.chars_cons (h : n.WellFormed) :
    ∃ c cs, n.chars = c :: cs ∧ (c = '-' ∨ c.isDigit = true) := by
  obtain ⟨d, ds, hwhole⟩ := List.exists_cons_of_ne_nil h.whole_ne
  unfold Number.chars
  cases n.negative with
  | true => exact ⟨'-', _, rfl, .inl rfl⟩
  | false => exact ⟨d, _, by rw [hwhole]; rfl, .inr (h.whole_digits d (by simp [hwhole]))⟩

/-- What a number begins with is neither of these. -/
theorem ne_of_isDigit {c d : Char} (hc : c = '-' ∨ c.isDigit = true) (hd : d ≠ '-')
    (hd' : d.isDigit = false) : c ≠ d := by
  rintro rfl
  rcases hc with rfl | hc
  · exact hd rfl
  · rw [hd'] at hc
    cases hc

theorem not_blank_of_isDigit {c : Char} (hc : c = '-' ∨ c.isDigit = true) : isBlank c = false := by
  have other {d : Char} := ne_of_isDigit (d := d) hc
  unfold isBlank
  simp only [Bool.or_eq_false_iff, beq_eq_false_iff_ne]
  exact ⟨⟨⟨other (by decide) (by decide), other (by decide) (by decide)⟩,
    other (by decide) (by decide)⟩, other (by decide) (by decide)⟩

/-- The first character of a value: it is no blank and ends nothing. -/
theorem chars_cons {j : Json} (hj : j.Readable) : ∃ c cs, j.chars = c :: cs ∧ isBlank c = false ∧
    c ≠ ']' := by
  cases hj with
  | null => exact ⟨'n', _, by rw [chars], by decide, by decide⟩
  | bool b =>
    cases b with
    | true => exact ⟨'t', _, by rw [chars], by decide, by decide⟩
    | false => exact ⟨'f', _, by rw [chars], by decide, by decide⟩
  | text s => exact ⟨'"', _, by rw [chars, quoted]; rfl, by decide, by decide⟩
  | array h => exact ⟨'[', _, by rw [chars]; rfl, by decide, by decide⟩
  | object h => exact ⟨'{', _, by rw [chars]; rfl, by decide, by decide⟩
  | @number n h =>
    obtain ⟨c, cs, hchars, hc⟩ := Number.chars_cons h
    exact ⟨c, cs, by rw [chars, hchars], not_blank_of_isDigit hc,
      ne_of_isDigit hc (by decide) (by decide)⟩

theorem skipBlanks_cons {c : Char} (hc : isBlank c = false) (cs : List Char) :
    skipBlanks (c :: cs) = c :: cs := by
  unfold skipBlanks
  rw [List.dropWhile_cons, hc]
  rfl

/-- What begins like a number is read as one. -/
theorem value?_number {c : Char} (hc : c = '-' ∨ c.isDigit = true) (depth : Nat) (cs : List Char) :
    value? (depth + 1) (c :: cs) = (number? (c :: cs)).map fun r => (.number r.1, r.2) := by
  have other {d : Char} := ne_of_isDigit (d := d) hc
  rw [value?, skipBlanks_cons (not_blank_of_isDigit hc)]
  split
  next heq => exact absurd (List.cons.inj heq).1 (other (by decide) (by decide))
  next heq => exact absurd (List.cons.inj heq).1 (other (by decide) (by decide))
  next heq => exact absurd (List.cons.inj heq).1 (other (by decide) (by decide))
  next heq => exact absurd (List.cons.inj heq).1 (other (by decide) (by decide))
  next heq => exact absurd (List.cons.inj heq).1 (other (by decide) (by decide))
  next heq => exact absurd (List.cons.inj heq).1 (other (by decide) (by decide))
  next => cases number? (c :: cs) <;> rfl

/-- What the reader does with members that are texts. -/
theorem ofMembers_map (members : List (String × Json)) :
    ofMembers (members.map fun m => (some m.1, m.2)) = .object members := by
  have mapM_eq : (members.map fun m => (some m.1, m.2)).mapM
      (fun m : Option String × Json => m.1.map fun k => (k, m.2)) = some members := by
    induction members with
    | nil => rfl
    | cons m ms ih => simp [ih]
  unfold ofMembers
  rw [mapM_eq]

theorem itemChars_cons_cons (v w : Json) (ws : List Json) :
    itemChars (v :: w :: ws) = chars v ++ ',' :: itemChars (w :: ws) := by
  rw [itemChars]
  exact fun h => absurd h (List.cons_ne_nil w ws)

theorem memberChars_cons_cons (k : String) (v : Json) (m : String × Json) (ms : List (String × Json)) :
    memberChars ((k, v) :: m :: ms) = quoted k ++ ':' :: chars v ++ ',' :: memberChars (m :: ms) := by
  rw [memberChars]
  exact fun h => absurd h (List.cons_ne_nil m ms)

theorem itemChars_cons {items : List Json} (hne : items ≠ []) (h : ∀ v ∈ items, v.Readable) :
    ∃ c cs, itemChars items = c :: cs ∧ isBlank c = false ∧ c ≠ ']' := by
  obtain ⟨v, vs, rfl⟩ := List.exists_cons_of_ne_nil hne
  obtain ⟨c, cs, hchars, hc⟩ := chars_cons (h v List.mem_cons_self)
  cases vs with
  | nil => exact ⟨c, cs, by rw [itemChars, hchars], hc⟩
  | cons w ws => exact ⟨c, _, by rw [itemChars_cons_cons, hchars]; rfl, hc⟩

theorem memberChars_cons {members : List (String × Json)} (hne : members ≠ []) :
    ∃ cs, memberChars members = '"' :: cs := by
  obtain ⟨⟨k, v⟩, ms, rfl⟩ := List.exists_cons_of_ne_nil hne
  cases ms with
  | nil => exact ⟨_, by rw [memberChars]; rfl⟩
  | cons m ms => exact ⟨_, by rw [memberChars_cons_cons]; rfl⟩

theorem stops_cons {c : Char} (hc : c = ',' ∨ c = ']' ∨ c = '}') (rest : List Char) :
    Stops (c :: rest) := by
  rintro d ⟨⟩
  rcases hc with rfl | rfl | rfl <;> decide

/-- With this depth values are read up to where they end, as far as they are not too long for it. -/
def ReadsValues (depth : Nat) : Prop :=
  ∀ j rest, j.Readable → Stops rest → 2 * j.chars.length ≤ depth →
    value? depth (j.chars ++ rest) = some (j, rest)

/-- So are the items of an array. -/
def ReadsItems (depth : Nat) : Prop :=
  ∀ items rest, items ≠ [] → (∀ v ∈ items, v.Readable) → 2 * (itemChars items).length + 1 ≤ depth →
    itemsFrom? depth (itemChars items ++ ']' :: rest) = some (items, rest)

/-- So are the members of an object. -/
def ReadsMembers (depth : Nat) : Prop :=
  ∀ members rest, members ≠ [] → (∀ m ∈ members, m.2.Readable) →
    2 * (memberChars members).length + 1 ≤ depth →
    membersFrom? depth (memberChars members ++ '}' :: rest) =
      some (members.map fun m => (some m.1, m.2), rest)

variable {depth : Nat}

theorem ReadsValues.succ (read_items : ReadsItems depth) (read_members : ReadsMembers depth) :
    ReadsValues (depth + 1) := by
  intro j rest hj hrest hdepth
  cases hj with
  | null => simp [chars, value?, skipBlanks, isBlank]
  | bool b => cases b <;> simp [chars, value?, skipBlanks, isBlank]
  | text s => simp [chars, quoted, value?, skipBlanks, isBlank, textBody?_quoted]
  | @number n h =>
    obtain ⟨c, cs, hchars, hc⟩ := Number.chars_cons h
    have number := number?_chars h hrest
    rw [hchars, List.cons_append] at number
    rw [chars, hchars, List.cons_append, value?_number hc, number]
    rfl
  | @array items h =>
    by_cases hne : items = []
    · subst hne
      simp [chars, itemChars, value?, skipBlanks, isBlank]
    · obtain ⟨c, cs, hchars, hblank, hend⟩ := itemChars_cons hne h
      have items_read := read_items items rest hne h (by
        simp only [chars, List.length_cons, List.length_append, List.length_nil] at hdepth
        omega)
      rw [chars, List.cons_append, List.cons_append, List.append_assoc, List.cons_append,
        List.nil_append]
      rw [value?, skipBlanks_cons (by decide)]
      rw [hchars, List.cons_append] at items_read ⊢
      simp only [skipBlanks_cons hblank]
      split
      next heq => exact absurd (List.cons.inj heq).1 hend
      next => simp [items_read]
  | @object members h =>
    by_cases hne : members = []
    · subst hne
      simp [chars, memberChars, value?, skipBlanks, isBlank]
    · obtain ⟨cs, hchars⟩ := memberChars_cons hne
      have members_read := read_members members rest hne h (by
        simp only [chars, List.length_cons, List.length_append, List.length_nil] at hdepth
        omega)
      rw [chars, List.cons_append, List.cons_append, List.append_assoc, List.cons_append,
        List.nil_append]
      rw [value?, skipBlanks_cons (by decide)]
      rw [hchars, List.cons_append] at members_read ⊢
      have hblank : isBlank '"' = false := by decide
      simp [skipBlanks_cons hblank, members_read, ofMembers_map]

theorem ReadsItems.succ (read_value : ReadsValues depth) (read_items : ReadsItems depth) :
    ReadsItems (depth + 1) := by
  intro items rest hne hitems hdepth
  obtain ⟨v, vs, rfl⟩ := List.exists_cons_of_ne_nil hne
  have hv := hitems v List.mem_cons_self
  cases vs with
  | nil =>
    rw [itemChars] at hdepth ⊢
    have value := read_value v (']' :: rest) hv (stops_cons (by simp) rest) (by omega)
    rw [itemsFrom?]
    simp [value, skipBlanks, isBlank]
  | cons w ws =>
    rw [itemChars_cons_cons] at hdepth ⊢
    simp only [List.length_append, List.length_cons] at hdepth
    have value := read_value v (',' :: (itemChars (w :: ws) ++ ']' :: rest)) hv
      (stops_cons (by simp) _) (by omega)
    have others := read_items (w :: ws) rest (List.cons_ne_nil w ws)
      (fun u hu => hitems u (List.mem_cons_of_mem v hu)) (by omega)
    rw [itemsFrom?, List.append_assoc, List.cons_append]
    simp [value, skipBlanks, isBlank, others]

theorem ReadsMembers.succ (read_value : ReadsValues depth) (read_members : ReadsMembers depth) :
    ReadsMembers (depth + 1) := by
  intro members rest hne hmembers hdepth
  obtain ⟨⟨k, v⟩, ms, rfl⟩ := List.exists_cons_of_ne_nil hne
  have hv : v.Readable := hmembers (k, v) List.mem_cons_self
  cases ms with
  | nil =>
    rw [memberChars] at hdepth ⊢
    simp only [List.length_append, List.length_cons] at hdepth
    have value := read_value v ('}' :: rest) hv (stops_cons (by simp) rest) (by omega)
    rw [membersFrom?]
    simp [quoted, skipBlanks, isBlank, textBody?_quoted, value]
  | cons m ms =>
    rw [memberChars_cons_cons] at hdepth ⊢
    simp only [List.length_append, List.length_cons] at hdepth
    have value := read_value v (',' :: (memberChars (m :: ms) ++ '}' :: rest)) hv
      (stops_cons (by simp) _) (by omega)
    have others := read_members (m :: ms) rest (List.cons_ne_nil m ms)
      (fun u hu => hmembers u (List.mem_cons_of_mem _ hu)) (by omega)
    rw [membersFrom?]
    simp [quoted, skipBlanks, isBlank, textBody?_quoted, value, others]

/-- **Values, items and members** are read up to where they end, if the reader may go deep enough. -/
theorem reads (depth : Nat) : ReadsValues depth ∧ ReadsItems depth ∧ ReadsMembers depth := by
  induction depth with
  | zero =>
    -- every value has a text, and no text is short enough
    refine ⟨fun j rest hj _ hdepth => ?_, fun _ _ _ _ hdepth => ?_, fun _ _ _ _ hdepth => ?_⟩
    · obtain ⟨c, cs, hchars, -⟩ := chars_cons hj
      rw [hchars] at hdepth
      exact absurd hdepth (by simp)
    · exact absurd hdepth (by simp)
    · exact absurd hdepth (by simp)
  | succ depth ih =>
    obtain ⟨read_value, read_items, read_members⟩ := ih
    exact ⟨.succ read_items read_members, .succ read_value read_items,
      .succ read_value read_members⟩

/-- **Every value is read back from its text.** -/
theorem ofText?_toText {j : Json} (h : j.Readable) : ofText? j.toText = some j := by
  have value := (reads (2 * j.chars.length + 2)).1 j [] h (fun _ hc => nomatch hc) (by omega)
  rw [List.append_nil] at value
  unfold ofText? toText ofChars?
  rw [String.toList_ofList, value]
  rfl

end TeamLedger.Json
