import Interpose.Text.Wrapping
import Interpose.Wrapper.Text

/-!
# Tables

Tables without borders. Each column is as wide as its widest cell with the margins of a cell, and
every cell is filled with blanks to that width. Where the console is too narrow for that, the widest
columns are narrowed first, and the cells are wrapped and cut.
-/

namespace Interpose.Command

open Text

/-- On which side of its column a cell stands. -/
inductive Side where
  /-- On the left. -/
  | left
  /-- On the right. -/
  | right
  deriving DecidableEq, Repr

/-- The form of a table. -/
structure TableForm where
  /-- The blanks before a cell. -/
  before : Nat
  /-- The blanks after a cell. -/
  after : Nat
  /-- The sides of the columns. -/
  sides : List Side
  deriving DecidableEq, Repr

/-- The cells of a text on a terminal. -/
def width (text : String) : Nat := cells text.toList

/-- The largest of some numbers. -/
def largest (numbers : List Nat) : Nat := numbers.foldr max 0

/-! ## The widths of columns -/

/-- The width that a column of a table has where the console is wide enough, with margins. -/
def naturalWidth (form : TableForm) (rows : List (List String)) (column : Nat) : Nat :=
  largest (rows.map fun row => width (row.getD column "")) + (form.before + form.after)

/-- The widths of all columns where the console is wide enough. -/
def naturalWidths (form : TableForm) (rows : List (List String)) : List Nat :=
  (List.range form.sides.length).map (naturalWidth form rows)

/-- A number divided by another one and rounded, in the middle between two numbers to the even
one. -/
def roundedDiv (number parts : Nat) : Nat :=
  let down := number / parts
  let rest := 2 * (number % parts)
  if rest < parts then down
  else if parts < rest then down + 1
  else if down % 2 = 0 then down else down + 1

/-- Take a number off the columns of some width in equal parts, each of which has a limit. -/
def narrowThose (widest limit : Nat) : (number count : Nat) → List Nat → List Nat
  | _, _, [] => []
  | number, count, column :: columns =>
    if column = widest then
      let part := min limit (roundedDiv number count)
      (column - part) :: narrowThose widest limit (number - part) (count - 1) columns
    else column :: narrowThose widest limit number count columns

/-- Narrow the widest columns, at most to the width of the widest ones of the others. -/
def narrowWidest (excess : Nat) (columns : List Nat) : List Nat :=
  let widest := largest columns
  let next := largest (columns.filter (· ≠ widest))
  narrowThose widest (min excess (widest - next)) excess (columns.count widest) columns

/-- Narrow columns to the width of the console in some rounds at most. -/
def narrow (console : Nat) : (rounds : Nat) → List Nat → List Nat
  | 0, columns => columns
  | rounds + 1, columns =>
    let total := columns.foldl (· + ·) 0
    if total ≤ console then columns
    else narrow console rounds (narrowWidest (total - console) columns)

/-- The widths of the columns of a table in a console, with margins. Each round makes columns equal
or is the last one, so there are no more rounds than columns. -/
def columnWidths (console : Nat) (form : TableForm) (rows : List (List String)) : List Nat :=
  narrow console form.sides.length ((naturalWidths form rows).map (min console))

/-! ## Lines -/

/-- A line of a cell, filled or shortened to some cells. -/
def fillCell (side : Side) (inner : Nat) (line : List Char) : List Char :=
  match side with
  | .left => shorten inner line ++ spaces (inner - cells line)
  | .right => spaces (inner - cells (trimEnd line)) ++ shorten inner (trimEnd line)

/-- The lines of a cell in a column. A column that has no room besides the margins shows nothing. -/
def cellLines (form : TableForm) (side : Side) (column : Nat) (text : String) : List (List Char) :=
  let inner := column - (form.before + form.after)
  if inner = 0 then []
  else (wrap false inner text.toList).map fun line =>
    spaces form.before ++ fillCell side inner line ++ spaces form.after

/-- The lines of a row. All cells have as many lines as the highest one. -/
def rowLines (form : TableForm) (columns : List Nat) (row : List String) : List String :=
  let shown := (form.sides.zip (columns.zip row)).map fun (side, column, text) =>
    (column, cellLines form side column text)
  let height := max 1 (largest (shown.map fun cell => cell.2.length))
  (List.range height).map fun index =>
    String.ofList (shown.flatMap fun (column, lines) => lines.getD index (spaces column))

/-- The lines of a table in a console. -/
def tableLines (console : Nat) (form : TableForm) (rows : List (List String)) : List String :=
  rows.flatMap (rowLines form (columnWidths console form rows))

/-- The lines of a text in a console. -/
def consoleLines (console : Nat) (text : String) : List String :=
  (wrap true console text.toList).map String.ofList

end Interpose.Command
