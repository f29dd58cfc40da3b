import Interpose.Text.Ranges

/-!
# Blank characters

The characters that trimming removes, and trimming itself. The class holds the ASCII blanks,
the four information separators, the next-line and no-break characters and every space, line
and paragraph separator of Unicode. Zero-width characters and the byte-order mark are not blank.
-/

namespace Interpose.Text

/-- The blank code points. -/
def blanks : Ranges :=
  [(0x09, 0x0D), (0x1C, 0x20), (0x85, 0x85), (0xA0, 0xA0), (0x1680, 0x1680), (0x2000, 0x200A),
   (0x2028, 0x2029), (0x202F, 0x202F), (0x205F, 0x205F), (0x3000, 0x3000)]

/-- Whether trimming removes a character. -/
def isBlank (c : Char) : Bool := blanks.contains c

/-- A line is blank when it holds blank characters only. -/
def isBlankLine (line : List Char) : Bool := line.all isBlank

/-- Remove the blanks at the front. -/
def trimStart (cs : List Char) : List Char := cs.dropWhile isBlank

/-- Remove the blanks at the end. -/
def trimEnd (cs : List Char) : List Char := (cs.reverse.dropWhile isBlank).reverse

/-- Remove the blanks at both ends. -/
def trim (cs : List Char) : List Char := trimEnd (trimStart cs)

@[simp] theorem trimEnd_nil : trimEnd [] = [] := rfl

end Interpose.Text
