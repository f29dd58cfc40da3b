import Interpose.Fault
import Interpose.Text.Cells
import Interpose.Text.Lines
import Interpose.Text.Tabs
import Interpose.Wrapper.Text

/-!
# Diagnostics

A fault is printed as its file, its position and its message, with its advice indented below. The
printer takes brackets for style tags: tags in a text are escaped and printed as they are, and a
backslash before a bracket that begins no tag is lost. Some control characters are dropped, and
tabs are widened by the cells of the terminal.
-/

namespace Interpose.Command

/-- Whether a character can follow the bracket that begins a tag. -/
def beginsTag (c : Char) : Bool :=
  ('a' ≤ c && c ≤ 'z') || c = '#' || c = '/' || c = '@'

/-- Whether a text begins with a tag: a bracket, one of some characters, and a closing bracket
before the next opening one. -/
def isTag : List Char → Bool
  | '[' :: c :: cs => beginsTag c && (cs.dropWhile fun d => d ≠ '[' && d ≠ ']').head? == some ']'
  | _ => false

/-- Drop the backslash before each bracket that begins no tag. -/
def dropEscapes : List Char → List Char
  | [] => []
  | c :: cs =>
    if c = '\\' ∧ cs.head? = some '[' ∧ isTag cs = false then dropEscapes cs
    else c :: dropEscapes cs

/-- Whether printing drops a character. -/
def isDropped (c : Char) : Bool :=
  c = '\x07' || c = '\x08' || c = '\x0b' || c = '\x0c' || c = '\r'

/-- Widen the tabs between the parts of a line, the first of which begins after a number of cells.
Each tab becomes a blank, and more of them up to the next stop. -/
def widenParts (column : Nat) : List (List Char) → List Char
  | [] => []
  | [part] => part
  | part :: parts =>
    let column := column + Text.cells (part ++ [' '])
    let blanks := (Text.tabStop - column % Text.tabStop) % Text.tabStop
    part ++ List.replicate (blanks + 1) ' ' ++ widenParts (column + blanks) parts

/-- Widen the tabs of a line. -/
def widenTabs (line : List Char) : List Char := widenParts 0 (line.splitOn '\t')

/-- Lines as they are printed. -/
def printedLines (cs : List Char) : List Char :=
  Text.joinLines ((Text.splitLines (cs.filter fun c => !isDropped c)).map widenTabs)

/-- A text as it is printed between tags. -/
def printed (parts : List String) : String :=
  String.ofList (printedLines (parts.flatMap fun part => dropEscapes part.toList))

/-- A file and a position in it. The position of a construct that stands nowhere is left out. -/
def location (file : String) (span : Option Span) : String :=
  match span.bind (·.line) with
  | none => file
  | some line =>
    if 0 < line then
      file ++ ":" ++ toString line ++ ":" ++ numberText (span.bind (·.column))
    else file

/-- What is printed for a message about a file. -/
def report (file : String) (diagnostic : Diagnostic) : String :=
  textOfLines ([printed [location file diagnostic.span, ": error: ", diagnostic.text]] ++
    match diagnostic.help with
    | none => []
    | some help => if help.isEmpty then [] else [printed ["  ", help]])

end Interpose.Command
