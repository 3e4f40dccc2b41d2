/-
Escapes of bytes in addresses: a percent sign and two hexadecimal digits stand for a byte.

Any other character stands for its bytes in UTF-8, and so does a percent sign that two hexadecimal
digits do not follow. The bytes make a text, or they make none.
-/
import TeamLedger.Text.Number

set_option autoImplicit false

namespace TeamLedger.Text

/-- The byte that two hexadecimal digits make. -/
def hexByte? (a b : Char) : Option UInt8 := do
  some (UInt8.ofNat (16 * (← hexDigit? a) + (← hexDigit? b)))

/-- The bytes that characters with escapes among them stand for. -/
def unescapedBytes : List Char → List UInt8
  | '%' :: a :: b :: cs =>
    match hexByte? a b with
    | some byte => byte :: unescapedBytes cs
    | none => 37 :: unescapedBytes (a :: b :: cs)
  | c :: cs => String.utf8EncodeChar c ++ unescapedBytes cs
  | [] => []

/-- The text that characters with escapes among them stand for, if their bytes make one. -/
def unescaped? (cs : List Char) : Option String :=
  String.fromUTF8? ⟨(unescapedBytes cs).toArray⟩

end TeamLedger.Text
