/-
  Flowchart.Text.Blank

  Which characters are blank: those with the Unicode property White_Space.
-/

namespace Flowchart.Text

/-- The ranges of code points with the property White_Space. -/
def blankRanges : List (Nat × Nat) :=
  [(0x0009, 0x000D), (0x0020, 0x0020), (0x0085, 0x0085), (0x00A0, 0x00A0), (0x1680, 0x1680),
   (0x2000, 0x200A), (0x2028, 0x2029), (0x202F, 0x202F), (0x205F, 0x205F), (0x3000, 0x3000)]

/-- The character takes up room and shows nothing. -/
def isBlank (c : Char) : Bool :=
  blankRanges.any fun r => r.1 ≤ c.toNat ∧ c.toNat ≤ r.2

/-- All characters of the line are blank; an empty line is blank. -/
def isBlankLine (line : String) : Bool :=
  line.toList.all isBlank

end Flowchart.Text
