import Interpose.Text.Blank
import Interpose.Text.Lines

/-!
# Margins

The margin of a list of lines is the longest run of spaces and tabs with which all lines that
are not empty begin. Removing it keeps the lines' indentation relative to each other; adding
one indents a text.
-/

namespace Interpose.Text

/-- The longest list that two lists begin with. -/
def commonFront : List Char → List Char → List Char
  | a :: as, b :: bs => if a = b then a :: commonFront as bs else []
  | _, _ => []

/-- The spaces and tabs that a line begins with. -/
def indentOf (line : List Char) : List Char := line.takeWhile fun c => c = ' ' || c = '\t'

/-- The indentation that all non-empty lines share. -/
def marginOf (lines : List (List Char)) : List Char :=
  match (lines.filter fun line => !line.isEmpty).map indentOf with
  | [] => []
  | indent :: rest => rest.foldl commonFront indent

/-- Remove the shared indentation from every line. -/
def removeMargin (lines : List (List Char)) : List (List Char) :=
  lines.map (List.drop (marginOf lines).length)

/-- Put a margin before every piece of a text that is not blank. -/
def addMargin (margin cs : List Char) : List Char :=
  ((pieces cs).map fun piece => if isBlankLine piece then piece else margin ++ piece).flatten

end Interpose.Text
