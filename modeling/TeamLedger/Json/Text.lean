/-
JSON values as text.

A value is written without blanks, its members in order. In a text the quote, the backslash and the
characters below the space are escaped, five of them by a letter and the others by four small
hexadecimal digits.

Reading accepts the JSON grammar: the four blanks between tokens, no leading zeros, no trailing
commas, every escape. A value ends where its grammar ends; a whole text holds one value and blanks.
-/
import TeamLedger.Json
import TeamLedger.Text.Number

set_option autoImplicit false

namespace TeamLedger.Json

open Text (hexDigit?)

/-! ## Writing -/

/-- The hexadecimal digits of a number, with zeros in front up to four. -/
def fourHexDigits (n : Nat) : List Char :=
  let ds := Nat.toDigits 16 n
  List.replicate (4 - ds.length) '0' ++ ds

/-- A character inside a text. -/
def escape (c : Char) : List Char :=
  if c = '"' then ['\\', '"']
  else if c = '\\' then ['\\', '\\']
  else if c = '\n' then ['\\', 'n']
  else if c = '\r' then ['\\', 'r']
  else if c = '\t' then ['\\', 't']
  else if c.toNat = 8 then ['\\', 'b']
  else if c.toNat = 12 then ['\\', 'f']
  else if c.toNat < 32 then '\\' :: 'u' :: fourHexDigits c.toNat
  else [c]

/-- The characters of a text in quotes. -/
def quoted (s : String) : List Char := '"' :: s.toList.flatMap escape ++ ['"']

/-- The characters of a number. -/
def Number.chars (n : Number) : List Char :=
  (if n.negative then ['-'] else []) ++ n.whole ++
    (if n.decimals.isEmpty then [] else '.' :: n.decimals) ++
    match n.exponent with
    | none => []
    | some (negative, ds) => 'e' :: (if negative then ['-'] else []) ++ ds

mutual

/-- The characters of a value. A value that cannot be read has none. -/
def chars : Json → List Char
  | null => ['n', 'u', 'l', 'l']
  | bool true => ['t', 'r', 'u', 'e']
  | bool false => ['f', 'a', 'l', 's', 'e']
  | number n => n.chars
  | text s => quoted s
  | array items => '[' :: itemChars items ++ [']']
  | object members => '{' :: memberChars members ++ ['}']
  | unreadable => []

/-- The characters of the items of an array. -/
def itemChars : List Json → List Char
  | [] => []
  | [v] => chars v
  | v :: vs => chars v ++ ',' :: itemChars vs

/-- The characters of the members of an object. -/
def memberChars : List (String × Json) → List Char
  | [] => []
  | [(k, v)] => quoted k ++ ':' :: chars v
  | (k, v) :: ms => quoted k ++ ':' :: chars v ++ ',' :: memberChars ms

end

/-- The text of a value. -/
def toText (j : Json) : String := String.ofList j.chars

/-! ## Reading texts -/

/-- The characters that may stand between tokens. -/
def isBlank (c : Char) : Bool := c == ' ' || c == '\n' || c == '\t' || c == '\r'

/-- The characters from the next token on. -/
def skipBlanks (cs : List Char) : List Char := cs.dropWhile isBlank

/-- The value of four hexadecimal digits. -/
def fourHex? (a b c d : Char) : Option Nat := do
  some ((((← hexDigit? a) * 16 + (← hexDigit? b)) * 16 + (← hexDigit? c)) * 16 + (← hexDigit? d))

/-- The code of the character that a letter behind a backslash stands for. -/
def escaped? (c : Char) : Option Nat :=
  if c = '"' ∨ c = '\\' ∨ c = '/' then some c.toNat
  else if c = 'b' then some 8
  else if c = 'f' then some 12
  else if c = 'n' then some 10
  else if c = 'r' then some 13
  else if c = 't' then some 9
  else none

/-- Reads up to the closing quote. A code is that of a character or, from an escape with digits, of
half of one. -/
def codes? : List Char → Option (List Nat × List Char)
  | [] => none
  | '"' :: rest => some ([], rest)
  | '\\' :: 'u' :: a :: b :: c :: d :: rest => do
    let code ← fourHex? a b c d
    let (codes, rest) ← codes? rest
    some (code :: codes, rest)
  | '\\' :: e :: rest => do
    let code ← escaped? e
    let (codes, rest) ← codes? rest
    some (code :: codes, rest)
  | c :: rest => do
    if c.toNat < 32 then none
    let (codes, rest) ← codes? rest
    some (c.toNat :: codes, rest)

/-- The code of the first half of a character. -/
def isFirstHalf (n : Nat) : Bool := 0xD800 ≤ n && n ≤ 0xDBFF

/-- The code of the second half of a character. -/
def isSecondHalf (n : Nat) : Bool := 0xDC00 ≤ n && n ≤ 0xDFFF

/-- The characters of a sequence of codes: two halves make one character, and there are no halves
left over. -/
def ofCodes? : List Nat → Option (List Char)
  | [] => some []
  | [a] => if isFirstHalf a || isSecondHalf a then none else some [Char.ofNat a]
  | a :: b :: rest =>
    if isFirstHalf a then
      if isSecondHalf b then
        (ofCodes? rest).map (Char.ofNat (0x10000 + (a - 0xD800) * 0x400 + (b - 0xDC00)) :: ·)
      else none
    else if isSecondHalf a then none
    else (ofCodes? (b :: rest)).map (Char.ofNat a :: ·)

/-- Reads a text behind its opening quote. The text is missing when it holds half of a character. -/
def textBody? (cs : List Char) : Option (Option String × List Char) := do
  let (codes, rest) ← codes? cs
  some ((ofCodes? codes).map String.ofList, rest)

/-! ## Reading numbers -/

/-- Reads one digit or more. -/
def digits? (cs : List Char) : Option (List Char × List Char) :=
  let ds := cs.takeWhile Char.isDigit
  if ds.isEmpty then none else some (ds, cs.dropWhile Char.isDigit)

/-- Reads the point and the digits behind it, if there is a point. -/
def decimals? : List Char → Option (List Char × List Char)
  | '.' :: rest => digits? rest
  | cs => some ([], cs)

/-- Reads the exponent, if there is one. -/
def exponent? : List Char → Option (Option (Bool × List Char) × List Char)
  | c :: rest =>
    if c = 'e' ∨ c = 'E' then do
      let (negative, rest) := match rest with
        | '-' :: rest => (true, rest)
        | '+' :: rest => (false, rest)
        | rest => (false, rest)
      let (ds, rest) ← digits? rest
      some (some (negative, ds), rest)
    else some (none, c :: rest)
  | [] => some (none, [])

/-- Reads a number. Only a lone zero starts with a zero. -/
def number? (cs : List Char) : Option (Number × List Char) := do
  let (negative, cs) := match cs with
    | '-' :: rest => (true, rest)
    | cs => (false, cs)
  let (whole, cs) ← digits? cs
  if whole.head? = some '0' ∧ whole.length ≠ 1 then none
  let (decimals, cs) ← decimals? cs
  let (exponent, cs) ← exponent? cs
  some (⟨negative, whole, decimals, exponent⟩, cs)

/-! ## Reading values -/

/-- The object with the given members, if every name is a text. -/
def ofMembers (members : List (Option String × Json)) : Json :=
  match members.mapM fun m => m.1.map fun k => (k, m.2) with
  | some members => object members
  | none => unreadable

mutual

/-- Reads a value. The first argument bounds the nesting of calls. -/
def value? : Nat → List Char → Option (Json × List Char)
  | 0, _ => none
  | depth + 1, cs =>
    match skipBlanks cs with
    | 'n' :: 'u' :: 'l' :: 'l' :: rest => some (null, rest)
    | 't' :: 'r' :: 'u' :: 'e' :: rest => some (bool true, rest)
    | 'f' :: 'a' :: 'l' :: 's' :: 'e' :: rest => some (bool false, rest)
    | '"' :: rest => do
      let (s, rest) ← textBody? rest
      some (s.elim unreadable text, rest)
    | '[' :: rest =>
      match skipBlanks rest with
      | ']' :: rest => some (array [], rest)
      | rest => do
        let (items, rest) ← itemsFrom? depth rest
        some (array items, rest)
    | '{' :: rest =>
      match skipBlanks rest with
      | '}' :: rest => some (object [], rest)
      | rest => do
        let (members, rest) ← membersFrom? depth rest
        some (ofMembers members, rest)
    | rest => do
      let (n, rest) ← number? rest
      some (number n, rest)

/-- Reads one item or more, and the end of the array. -/
def itemsFrom? : Nat → List Char → Option (List Json × List Char)
  | 0, _ => none
  | depth + 1, cs => do
    let (v, cs) ← value? depth cs
    match skipBlanks cs with
    | ',' :: rest =>
      let (vs, rest) ← itemsFrom? depth rest
      some (v :: vs, rest)
    | ']' :: rest => some ([v], rest)
    | _ => none

/-- Reads one member or more, and the end of the object. -/
def membersFrom? : Nat → List Char → Option (List (Option String × Json) × List Char)
  | 0, _ => none
  | depth + 1, cs =>
    match skipBlanks cs with
    | '"' :: rest => do
      let (k, rest) ← textBody? rest
      match skipBlanks rest with
      | ':' :: rest =>
        let (v, rest) ← value? depth rest
        match skipBlanks rest with
        | ',' :: rest =>
          let (ms, rest) ← membersFrom? depth rest
          some ((k, v) :: ms, rest)
        | '}' :: rest => some ([(k, v)], rest)
        | _ => none
      | _ => none
    | _ => none

end

/-- Reads a whole text: one value, and blanks around it. -/
def ofChars? (cs : List Char) : Option Json := do
  let (v, rest) ← value? (2 * cs.length + 2) cs
  if (skipBlanks rest).isEmpty then some v else none

/-- Reads a value from its text. -/
def ofText? (s : String) : Option Json := ofChars? s.toList

end TeamLedger.Json
