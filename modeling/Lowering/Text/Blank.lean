import Lowering.Text.CodePoint

/-!
# Lowering — blank characters

A character is blank if it has the property White_Space. Besides the blanks of ASCII these are the
next-line control, the no-break space, the spaces of the punctuation block, the two separators of
lines and paragraphs, and the ideographic space; a zero-width space is not blank.
-/

namespace Lowering.Text

/-- The code points with the property White_Space, in ascending ranges. -/
def blankRanges : List CodePointRange :=
  [(0x9, 0xd), (0x20, 0x20), (0x85, 0x85), (0xa0, 0xa0), (0x1680, 0x1680), (0x2000, 0x200a),
    (0x2028, 0x2029), (0x202f, 0x202f), (0x205f, 0x205f), (0x3000, 0x3000)]

/-- Whether the character is blank. A line feed is blank too; where it has to be told from the
others, this is said. -/
def isBlank (c : Char) : Bool :=
  within blankRanges c

/-- The text without the blanks at its end. -/
def trimEnd (cs : List Char) : List Char :=
  (cs.reverse.dropWhile isBlank).reverse

/-- The text without the blanks at its ends. -/
def trim (cs : List Char) : List Char :=
  trimEnd (cs.dropWhile isBlank)

end Lowering.Text
