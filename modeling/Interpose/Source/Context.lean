import Interpose.Text.Lines
import Interpose.Text.Tabs

/-!
# Pointing at a place

The context of a place is the part of its line within a few dozen characters, and below it a
caret. The caret is indented by the width of the part before the place.
-/

namespace Interpose.Source

/-- How many characters on either side of a place its context shows. -/
def contextSpan : Nat := 40

/-- The part of the line before an offset that the context shows. -/
def contextBefore (text : List Char) (offset : Nat) : List Char :=
  ((Text.splitLines ((text.take offset).drop (offset - contextSpan))).getLast?).getD []

/-- The part of the line from an offset on that the context shows. -/
def contextAfter (text : List Char) (offset : Nat) : List Char :=
  ((text.drop offset).take contextSpan).takeWhile (· ≠ '\n')

/-- The line around an offset and a caret below the offset. -/
def context (text : List Char) (offset : Nat) : String :=
  let before := contextBefore text offset
  String.ofList (before ++ contextAfter text offset ++
    '\n' :: List.replicate (Text.widenedLength 0 before) ' ' ++ ['^'])

end Interpose.Source
