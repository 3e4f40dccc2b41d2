/-
Instants as text in the form of RFC 3339.

An instant is written in universal time with the fewest of 0, 3, 6 or 9 decimals of a second that
lose nothing; a leap second is second 60. Years beyond four digits carry a sign.

Reading also takes what people write instead: one digit for two, blanks between the parts, a blank
or a small letter for the `T`, `UTC` for the `Z`, an offset without its colon or with the
typographic minus, any number of decimals, of which nine count, and a signed year.
-/
import TeamLedger.Instant
import TeamLedger.Instant.Calendar
import TeamLedger.Text.Blank

set_option autoImplicit false

namespace TeamLedger.Instant

open TeamLedger.Text

/-! ## Writing -/

/-- The digits of a number, with zeros in front up to a width. -/
def padded (width n : Nat) : List Char :=
  let ds := Nat.toDigits 10 n
  List.replicate (width - ds.length) '0' ++ ds

/-- A year: four digits from 0 to 9999, signed otherwise. -/
def yearChars (year : Int) : List Char :=
  if 0 ≤ year ∧ year ≤ 9999 then padded 4 year.toNat
  else (if year < 0 then '-' else '+') :: padded 4 year.natAbs

/-- The decimals of a second: none, milliseconds, microseconds or nanoseconds, the first that
suffice. -/
def decimalChars (nano : Nat) : List Char :=
  if nano = 0 then []
  else if nano % 1000000 = 0 then '.' :: padded 3 (nano / 1000000)
  else if nano % 1000 = 0 then '.' :: padded 6 (nano / 1000)
  else '.' :: padded 9 nano

/-- The characters of an instant. -/
def chars (t : Instant) : List Char :=
  let date := Date.ofDays (t.second / 86400)
  let time := (t.second % 86400).toNat
  -- a leap second is the second before it with more than a second of nanoseconds
  let leap := 10 ^ 9 ≤ t.nano
  let second := if leap then time % 60 + 1 else time % 60
  let nano := if leap then t.nano - 10 ^ 9 else t.nano
  yearChars date.year ++ '-' :: padded 2 date.month ++ '-' :: padded 2 date.day ++
    'T' :: padded 2 (time / 3600) ++ ':' :: padded 2 (time / 60 % 60) ++ ':' :: padded 2 second ++
    decimalChars nano ++ ['Z']

/-- The text of an instant. -/
def toText (t : Instant) : String := String.ofList t.chars

/-! ## Reading -/

/-- Reads one to `most` digits. -/
def number? (most : Nat) (cs : List Char) : Option (Nat × List Char) :=
  let ds := (cs.take most).takeWhile Char.isDigit
  if ds.isEmpty then none else some (Nat.ofDigitChars 10 ds 0, cs.drop ds.length)

/-- Reads blanks and then one to two digits with a value from `least` to `greatest`. -/
def part? (least greatest : Nat) (cs : List Char) : Option (Nat × List Char) := do
  let (n, rest) ← number? 2 (skipBlanks cs)
  if least ≤ n ∧ n ≤ greatest then some (n, rest) else none

/-- Reads blanks and then a mark. -/
def mark? (m : Char) (cs : List Char) : Option (List Char) :=
  match skipBlanks cs with
  | c :: rest => if c = m then some rest else none
  | [] => none

/-- Reads blanks and then a year: up to four digits, or a sign and any number of digits. -/
def year? (cs : List Char) : Option (Int × List Char) :=
  match skipBlanks cs with
  | '-' :: rest => do
    let (n, rest) ← number? rest.length rest
    some (-(n : Int), rest)
  | '+' :: rest => do
    let (n, rest) ← number? rest.length rest
    some ((n : Int), rest)
  | rest => do
    let (n, rest) ← number? 4 rest
    some ((n : Int), rest)

/-- Reads the decimals of a second as nanoseconds, if there are any. Nine decimals count. -/
def decimals? : List Char → Option (Nat × List Char)
  | '.' :: rest => do
    let ds := rest.takeWhile Char.isDigit
    if ds.isEmpty then none
    else
      let kept := ds.take 9
      some (Nat.ofDigitChars 10 kept 0 * 10 ^ (9 - kept.length), rest.dropWhile Char.isDigit)
  | cs => some (0, cs)

/-- Reads a two-digit number. -/
def twoDigits? : List Char → Option (Nat × List Char)
  | a :: b :: rest =>
    if a.isDigit ∧ b.isDigit then some (Nat.ofDigitChars 10 [a, b] 0, rest) else none
  | _ => none

/-- Reads the offset from universal time in seconds: `Z`, `UTC`, or a sign with hours and minutes,
less than a day. -/
def offset? : List Char → Option (Int × List Char)
  | u :: t :: c :: rest =>
    if [u, t, c].map Char.toUpper = ['U', 'T', 'C'] then some (0, rest)
    else direct (u :: t :: c :: rest)
  | cs => direct cs
where
  /-- Reads the offset unless it is `UTC`. -/
  direct : List Char → Option (Int × List Char)
    | [] => none
    | c :: rest => do
      if c = 'Z' ∨ c = 'z' then some (0, rest)
      else
        let sign ← if c = '+' then some (1 : Int) else if c = '-' ∨ c = '−' then some (-1) else none
        let (hours, rest) ← twoDigits? rest
        let (minutes, rest) ← twoDigits? (rest.dropWhile fun c => c == ':' || isBlank c)
        if minutes < 60 ∧ hours < 24 then
          some (sign * (hours * 3600 + minutes * 60 : Nat), rest)
        else none

/-- The years that instants may lie in. -/
def yearInRange (year : Int) : Bool := -262143 ≤ year && year ≤ 262142

/-- Reads an instant. -/
def ofChars? (cs : List Char) : Option Instant := do
  let (year, cs) ← year? cs
  let cs ← mark? '-' cs
  let (month, cs) ← part? 1 12 cs
  let cs ← mark? '-' cs
  let (day, cs) ← part? 1 31 cs
  let cs ← match cs with
    | c :: rest => if c = 'T' ∨ c = 't' ∨ c = ' ' then some rest else none
    | [] => none
  let (hour, cs) ← part? 0 23 cs
  let cs ← mark? ':' cs
  let (minute, cs) ← part? 0 59 cs
  let cs ← mark? ':' cs
  let (second, cs) ← part? 0 60 cs
  let (nano, cs) ← decimals? cs
  let (offset, cs) ← offset? (skipBlanks cs)
  let date : Date := ⟨year, month, day⟩
  let leap := second = 60
  let time := hour * 3600 + minute * 60 + if leap then 59 else second
  let at' := date.toDays * 86400 + (time : Int) - offset
  let nano' := if leap then nano + 10 ^ 9 else nano
  if h : nano' < 2 * 10 ^ 9 then
    -- the offset may lead out of the years there are, so the result is checked too
    if (skipBlanks cs).isEmpty ∧ date.isValid ∧ yearInRange year ∧
        yearInRange (Date.ofDays (at' / 86400)).year then
      some ⟨at', nano', h⟩
    else none
  else none

/-- Reads an instant from its text. -/
def ofText? (s : String) : Option Instant := ofChars? s.toList

end TeamLedger.Instant
