/-
Module: AbcBuild.Text.Blank
Purpose: The characters with the Unicode property White_Space, and removing them from the start of a text.
Main exports: isBlank, trimStart
-/

namespace AbcBuild.Text

/-- The code points with the property White_Space, as closed ranges in ascending order. -/
def blankRanges : List (Nat × Nat) :=
  [(0x09, 0x0d), (0x20, 0x20), (0x85, 0x85), (0xa0, 0xa0), (0x1680, 0x1680), (0x2000, 0x200a),
   (0x2028, 0x2029), (0x202f, 0x202f), (0x205f, 0x205f), (0x3000, 0x3000)]

/-- The character has the property White_Space. -/
def isBlank (c : Char) : Bool :=
  blankRanges.any fun (low, high) => low ≤ c.toNat && c.toNat ≤ high

/-- The text from its first character that is not blank on. -/
def trimStart (text : List Char) : List Char :=
  text.dropWhile isBlank

end AbcBuild.Text
