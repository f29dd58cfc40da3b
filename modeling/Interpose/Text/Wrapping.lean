import Interpose.Text.Blank
import Interpose.Text.Cells

/-!
# Wrapping

A line that takes more cells than there are is broken in front of words. A word that takes more
cells than there are has a line of its own: it is folded into pieces that fit, or it is cut later.
Blanks at the end of a line go along with the word before them and take no cells there.
-/

namespace Interpose.Text

/-- Some blanks. -/
def spaces (count : Nat) : List Char := List.replicate count ' '

/-- The words of a line, each with the blanks behind it. Blanks at the front of the line belong to
the first word. -/
def words (cs : List Char) : List (List Char) :=
  match cs.splitBy fun c d => !(isBlank c && !isBlank d) with
  | first :: word :: rest =>
    if isBlankLine first then (first ++ word) :: rest else first :: word :: rest
  | pieces => pieces

/-- Fold a text into pieces that each take some cells at most, the first one behind a piece that is
there already. -/
def foldCells (width : Nat) : List Char → List Char → List (List Char)
  | piece, [] => [piece]
  | piece, c :: cs =>
    if cells piece + cellWidth c ≤ width then foldCells width (piece ++ [c]) cs
    else piece :: foldCells width [c] cs

/-- Set words into lines, the first one behind a line that is there already. -/
def wrapWords (fold : Bool) (width : Nat) : List Char → List (List Char) → List (List Char)
  | line, [] => [line]
  | line, word :: rest =>
    if cells line + cells (trimEnd word) ≤ width then wrapWords fold width (line ++ word) rest
    else
      let before := if line.isEmpty then [] else [line]
      let pieces := if fold && width < cells (trimEnd word) then foldCells width [] word else [word]
      before ++ pieces.dropLast ++ wrapWords fold width (pieces.getLast?.getD []) rest

/-- Remove the blanks at the end of a line that stand beyond a width. -/
def trimBeyond (width : Nat) (line : List Char) : List Char :=
  line.take (max width (trimEnd line).length)

/-- The lines into which a line is wrapped. -/
def wrap (fold : Bool) (width : Nat) (cs : List Char) : List (List Char) :=
  (wrapWords fold width [] (words cs)).map (trimBeyond width)

/-- The front of a text that takes some cells. Half of a wide character is left blank. -/
def takeCells : Nat → List Char → List Char
  | 0, _ => []
  | count + 1, [] => spaces (count + 1)
  | count + 1, c :: cs =>
    if cellWidth c ≤ count + 1 then c :: takeCells (count + 1 - cellWidth c) cs else [' ']

/-- A text in some cells. What does not fit is left out, which an ellipsis says. -/
def shorten (width : Nat) (cs : List Char) : List Char :=
  if cells cs ≤ width then cs else takeCells (width - 1) cs ++ ['…']

end Interpose.Text
