import Interpose.Command.Arguments
import Interpose.Text.Styles
import Interpose.Wrapper.Text

/-!
# Help texts

A help text shows how to call the program or a command, what it is for, and a list of options and
of commands. The lists have two columns; the second one is filled up to the width of the text and
goes on below itself.
-/

namespace Interpose.Command

/-- The width of help texts on a terminal with a number of columns. -/
def helpWidth (columns : Nat) : Nat := max (min columns 80 - 2) 50

/-- The widest that the first column of a list is made for. -/
def firstColumnLimit : Nat := 30

/-- The blanks between two columns, and before the first one. -/
def gap : Nat := 2

/-- A number of blanks. -/
def blanks (count : Nat) : String := String.ofList (List.replicate count ' ')

/-- A text with blanks after it up to a width. -/
def padded (width : Nat) (text : String) : String := text ++ blanks (width - text.length)

/-- A word with the blanks that stand before it. -/
structure Word where
  /-- The number of blanks. -/
  space : Nat
  /-- The word. -/
  text : String
  deriving DecidableEq, Repr

/-- The words of a text after a number of blanks and the letters of a word that has begun, which
are kept in reverse order. -/
def wordsFrom (space : Nat) (letters : List Char) : List Char → List Word
  | [] => if letters.isEmpty then [] else [⟨space, String.ofList letters.reverse⟩]
  | c :: cs =>
    if c = ' ' then
      if letters.isEmpty then wordsFrom (space + 1) [] cs
      else ⟨space, String.ofList letters.reverse⟩ :: wordsFrom 1 [] cs
    else wordsFrom space (c :: letters) cs

/-- The words of a text. -/
def wordsOf (text : String) : List Word := wordsFrom 0 [] text.toList

/-- Fill lines with words after an open line. The blanks before a word that begins a line are
dropped. -/
def fillFrom (width : Nat) (line : String) : List Word → List String
  | [] => [line]
  | word :: words =>
    if line.length + word.space + word.text.length ≤ width then
      fillFrom width (line ++ blanks word.space ++ word.text) words
    else line :: fillFrom width word.text words

/-- A text as lines of at most a width. -/
def fill (width : Nat) (text : String) : List String :=
  match wordsOf text with
  | [] => []
  | word :: words => fillFrom width word.text words

/-- A text as indented lines. -/
def paragraph (width : Nat) (text : String) : List String :=
  (fill (width - gap) text).map (blanks gap ++ ·)

/-- A row of a list. -/
structure Row where
  /-- What stands in the first column. -/
  first : String
  /-- What stands in the second column. -/
  second : String
  deriving DecidableEq, Repr

/-- The lines of a list. -/
def listLines (width : Nat) (rows : List Row) : List String :=
  let widest := (rows.map (·.first.length)).foldl max 0
  let column := min widest firstColumnLimit + gap
  rows.flatMap fun row =>
    match fill (max (width - column - gap) 10) row.second with
    | [] => [blanks gap ++ row.first]
    | line :: lines =>
      (if row.first.length ≤ column - gap then
        [blanks gap ++ padded column row.first ++ line]
      else [blanks gap ++ row.first, blanks (gap + column) ++ line]) ++
      lines.map (blanks (gap + column) ++ ·)

/-- An option as a row. -/
def Opt.row (option : Opt) : Row where
  first := ", ".intercalate option.names ++ (if option.takes = .nothing then "" else " TEXT")
  second := option.help ++ (if option.required then "  [required]" else "")

/-- The words up to the first one with which they are longer than a limit, or up to the first
one that ends a sentence. The count is the length of the words so far. -/
def leadingWords (limit count : Nat) : List Word → List Word × Bool
  | [] => ([], true)
  | word :: words =>
    let count := count + word.space + word.text.length
    if limit < count then ([], false)
    else if word.text.endsWith "." then ([word], true)
    else
      let (more, complete) := leadingWords limit count words
      (word :: more, complete)

/-- Words with a blank between neighbors. -/
def joinWords (words : List Word) : String := " ".intercalate (words.map (·.text))

/-- What marks a text that is cut short. -/
def ellipsis : String := "..."

/-- A text of at most a length: its first sentence, or else as many words as there is room for,
with a mark. -/
def shortened (limit : Nat) (text : String) : String :=
  match leadingWords limit 0 (wordsOf text) with
  | (words, true) => joinWords words
  | (words, false) =>
    joinWords (leadingWords (limit - ellipsis.length) 0 words).1 ++ ellipsis

/-- A command as a row. -/
def row (width : Nat) (command : Command) : Row :=
  let widest := (all.map (·.name.length)).foldl max 0
  ⟨command.name, shortened (width - 6 - widest) command.summary⟩

/-- How to call the program. -/
def programUsage : String := "Usage: " ++ program ++ " [OPTIONS] COMMAND [ARGS]..."

/-- How to call a command. -/
def usage (command : Command) : String :=
  "Usage: " ++ program ++ " " ++ command.name ++ " [OPTIONS]"

/-- The help text of the program. -/
def programHelp (width : Nat) : String :=
  textOfLines ([programUsage, ""] ++ paragraph width programSummary ++ ["", "Options:"] ++
    listLines width [helpOption.row] ++ ["", "Commands:"] ++ listLines width (all.map (row width)))

/-- The help text of a command. -/
def help (width : Nat) (command : Command) : String :=
  textOfLines ([usage command, ""] ++ paragraph width command.summary ++ ["", "Options:"] ++
    listLines width (command.options.map Opt.row))

/-- What is printed for a fault in the arguments of the program or of a command. Arguments are shown
without the style sequences in them. -/
def UsageFault.report (fault : UsageFault) (command : Option Command) : String :=
  let error := "Error: " ++ String.ofList (Text.withoutStyles fault.message.toList)
  if fault.showsUsage then
    match command with
    | none =>
      textOfLines [programUsage, "Try '" ++ program ++ " --help' for help.", "", error]
    | some command =>
      textOfLines [command.usage,
        "Try '" ++ program ++ " " ++ command.name ++ " --help' for help.", "", error]
  else textOfLines [error]

end Interpose.Command
