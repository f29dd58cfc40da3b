/-!
# Options

The commands of the program with the options that each of them takes.
-/

namespace Interpose.Command

/-- What an option takes. -/
inductive Takes where
  /-- Nothing: the option is a switch. -/
  | nothing
  /-- A text. -/
  | text
  /-- A text that may be left out, for which another one then stands. -/
  | optional (bare : String)
  deriving DecidableEq, Repr

/-- An option. -/
structure Opt where
  /-- Its long name, with the dashes. -/
  long : String
  /-- The letter of its short name, if it has one. -/
  short : Option Char
  /-- What it takes. -/
  takes : Takes
  /-- Whether it has to be given. -/
  required : Bool
  /-- What it is for. -/
  help : String
  deriving DecidableEq, Repr

/-- The short name of an option with a letter. -/
def shortName (letter : Char) : String := String.ofList ['-', letter]

/-- The names of an option, the short one first. -/
def Opt.names (option : Opt) : List String :=
  (option.short.map shortName).toList ++ [option.long]

/-- The option that shows the help text. -/
def helpOption : Opt := ⟨"--help", none, .nothing, false, "Show this message and exit."⟩

/-- The option that names the definition file. -/
def inputOption : Opt := ⟨"--input", some 'i', .text, true, "Input service definition file"⟩

/-- The option that names the file of the generated module. -/
def outputOption : Opt := ⟨"--output", some 'o', .text, true, "Output file"⟩

/-- The option that names the support package. -/
def supportOption : Opt :=
  ⟨"--runtime-import", none, .optional "hookwire.runtime", false,
    "Import path for runtime. No value=hookwire.runtime, omit=hookwire_runtime"⟩

/-- The option that asks for JSON. -/
def jsonOption : Opt := ⟨"--json", none, .nothing, false, "Output as JSON"⟩

/-- The option that names the directory above the support package. -/
def directoryOption : Opt := ⟨"--output", some 'o', .text, false, "Output directory"⟩

/-- The option that names the directory of the support package. -/
def nameOption : Opt := ⟨"--name", none, .text, false, "Runtime folder name"⟩

end Interpose.Command

namespace Interpose

/-- A command of the program. -/
inductive Command where
  /-- Generate the module of a definition file. -/
  | gen
  /-- Show the services of a definition file. -/
  | info
  /-- Write the support package. -/
  | runtime
  deriving DecidableEq, Repr

namespace Command

/-- The name of the program. -/
def program : String := "cli"

/-- What the program is for. -/
def programSummary : String := "hookwire middleware wrapper generator."

/-- All commands in the order of their names. -/
def all : List Command := [.gen, .info, .runtime]

/-- The name of a command. -/
def name : Command → String
  | .gen => "gen"
  | .info => "info"
  | .runtime => "runtime"

/-- What a command is for. -/
def summary : Command → String
  | .gen => "Generate middleware wrappers from a definition file."
  | .info => "Display services, middleware registries and hook order."
  | .runtime => "Generate runtime support code."

/-- The options of a command. -/
def options : Command → List Opt
  | .gen => [inputOption, outputOption, supportOption, helpOption]
  | .info => [inputOption, jsonOption, helpOption]
  | .runtime => [directoryOption, nameOption, helpOption]

/-- The command with a name. -/
def ofName? (name : String) : Option Command := all.find? fun command => command.name = name

end Command

end Interpose
