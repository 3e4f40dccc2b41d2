/-
Blank characters: those with the Unicode property White_Space.
-/
set_option autoImplicit false

namespace TeamLedger.Text

/-- The blank characters, as ranges of code points, both ends included. -/
def blankRanges : List (Nat × Nat) :=
  [(0x09, 0x0D), (0x20, 0x20), (0x85, 0x85), (0xA0, 0xA0), (0x1680, 0x1680), (0x2000, 0x200A),
    (0x2028, 0x2029), (0x202F, 0x202F), (0x205F, 0x205F), (0x3000, 0x3000)]

/-- The character is blank. -/
def isBlank (c : Char) : Bool :=
  blankRanges.any fun r => r.1 ≤ c.toNat && c.toNat ≤ r.2

/-- The characters from the first one that is not blank. -/
def skipBlanks (cs : List Char) : List Char := cs.dropWhile isBlank

end TeamLedger.Text
