import Interpose.Command.Close
import Interpose.Command.Option
import Interpose.Text.Quoted

/-!
# Arguments

Arguments are read from left to right. One that begins with a dash names options: first the whole
argument up to an equals sign is tried as a long name, then, unless it begins with two dashes, its
letters are short names. An option takes its value from the rest of the argument or from the next
one. Two dashes alone end the options.
-/

namespace Interpose.Command

/-- What is wrong with arguments. -/
inductive UsageFault where
  /-- There is no such option, but there are close ones. -/
  | noSuchOption (name : String) (close : List String)
  /-- An option lacks its value. -/
  | needsArgument (name : String)
  /-- A switch is given a value. -/
  | takesNoValue (name : String)
  /-- An option has to be given. -/
  | missingOption (option : Opt)
  /-- There are arguments that no option takes. -/
  | extraArguments (arguments : List String)
  /-- There is no command. -/
  | missingCommand
  /-- There is no such command, but there are close ones. -/
  | noSuchCommand (name : String) (close : List String)
  deriving DecidableEq, Repr

/-- Close names as a question. -/
def closeText : List String → String
  | [] => ""
  | [name] => " Did you mean " ++ Text.quoted name ++ "?"
  | names => " (Did you mean one of: " ++ ", ".intercalate (names.map Text.quoted) ++ "?)"

namespace UsageFault

/-- What a fault says. -/
def message : UsageFault → String
  | .noSuchOption name close => "No such option " ++ Text.quoted name ++ "." ++ closeText close
  | .needsArgument name => "Option " ++ Text.quoted name ++ " requires an argument."
  | .takesNoValue name => "Option " ++ Text.quoted name ++ " does not take a value."
  | .missingOption option =>
    "Missing option " ++
      " / ".intercalate (option.names.reverse.map fun name => "'" ++ name ++ "'") ++ "."
  | .extraArguments [argument] => "Got unexpected extra argument (" ++ argument ++ ")"
  | .extraArguments arguments =>
    "Got unexpected extra arguments (" ++ " ".intercalate arguments ++ ")"
  | .missingCommand => "Missing command."
  | .noSuchCommand name close => "No such command " ++ Text.quoted name ++ "." ++ closeText close

/-- Whether the usage is shown before a fault. -/
def showsUsage : UsageFault → Bool
  | .needsArgument _ | .takesNoValue _ => false
  | _ => true

end UsageFault

/-- An option that is given. -/
structure Given where
  /-- The option. -/
  option : Opt
  /-- Its value; a switch has none. -/
  value : Option String
  deriving DecidableEq, Repr

/-- Whether an argument names options. -/
def namesOption (argument : String) : Bool :=
  match argument.toList with
  | '-' :: _ :: _ => true
  | _ => false

/-- Take the value of an option from what is attached to its name or from the arguments after
it. A value that may be left out is left out when an option's name stands in its place. -/
def takeValue (option : Opt) (name : String) (attached : Option String) (rest : List String) :
    Except UsageFault (Option String × List String) :=
  match option.takes, attached, rest with
  | .nothing, none, rest => .ok (none, rest)
  | .nothing, some _, _ => .error (.takesNoValue name)
  | .text, some value, rest => .ok (some value, rest)
  | .text, none, value :: rest => .ok (some value, rest)
  | .text, none, [] => .error (.needsArgument name)
  | .optional bare, some value, rest =>
    .ok (if namesOption value then (some bare, value :: rest) else (some value, rest))
  | .optional bare, none, [] => .ok (some bare, [])
  | .optional bare, none, value :: rest =>
    .ok (if namesOption value then (some bare, value :: rest) else (some value, rest))

/-- The name and the value that an equals sign sets apart, if there is one. -/
def splitAttached (argument : String) : String × Option String :=
  let cs := argument.toList
  match cs.dropWhile (· ≠ '=') with
  | [] => (argument, none)
  | _ :: value => (String.ofList (cs.takeWhile (· ≠ '=')), some (String.ofList value))

/-- Read letters as short names. -/
def readLetters (options : List Opt) :
    List Char → List String → Except UsageFault (List Given × List String)
  | [], rest => .ok ([], rest)
  | letter :: letters, rest =>
    match options.find? fun option => option.short = some letter with
    | none => .error (.noSuchOption (shortName letter) [])
    | some option =>
      if option.takes = .nothing then
        (readLetters options letters rest).map fun (given, rest) => (⟨option, none⟩ :: given, rest)
      else
        let attached := if letters.isEmpty then none else some (String.ofList letters)
        (takeValue option (shortName letter) attached rest).map fun (value, rest) =>
          ([⟨option, value⟩], rest)

/-- Read an argument that names options. -/
def readOptions (options : List Opt) (argument : String) (rest : List String) :
    Except UsageFault (List Given × List String) :=
  let (name, attached) := splitAttached argument
  match options.find? fun option => option.long = name with
  | some option =>
    (takeValue option name attached rest).map fun (value, rest) => ([⟨option, value⟩], rest)
  | none =>
    match argument.toList with
    | '-' :: '-' :: _ => .error (.noSuchOption name (closeNames (options.map (·.long)) name))
    | _ :: letters => readLetters options letters rest
    | [] => .ok ([], rest)

/-- What arguments say. -/
structure Invocation where
  /-- The options in the order in which they are given. -/
  given : List Given
  /-- The other arguments. -/
  others : List String
  deriving DecidableEq, Repr

/-- Read arguments. When options may not follow other arguments, the first other argument ends
them. An option uses up its argument, or at least its name, so the number of characters and
arguments is fuel enough. -/
def readFrom (options : List Opt) (interspersed : Bool) :
    Nat → List String → Except UsageFault Invocation
  | 0, arguments => .ok ⟨[], arguments⟩
  | _, [] => .ok ⟨[], []⟩
  | fuel + 1, argument :: rest =>
    if argument = "--" then .ok ⟨[], rest⟩
    else if namesOption argument then
      match readOptions options argument rest with
      | .error fault => .error fault
      | .ok (given, rest) =>
        (readFrom options interspersed fuel rest).map fun invocation =>
          { invocation with given := given ++ invocation.given }
    else if interspersed then
      (readFrom options interspersed fuel rest).map fun invocation =>
        { invocation with others := argument :: invocation.others }
    else .ok ⟨[], argument :: rest⟩

/-- Read all arguments. -/
def readArguments (options : List Opt) (interspersed : Bool) (arguments : List String) :
    Except UsageFault Invocation :=
  readFrom options interspersed ((String.join arguments).length + arguments.length) arguments

namespace Invocation

/-- Whether an option is given. -/
def has (invocation : Invocation) (option : Opt) : Bool :=
  invocation.given.any fun given => given.option.long = option.long

/-- The value of an option, the last one when it is given several times. -/
def value? (invocation : Invocation) (option : Opt) : Option String :=
  (invocation.given.reverse.find? fun given => given.option.long = option.long).bind (·.value)

/-- Whether all required options are given and nothing else is left. -/
def check (invocation : Invocation) (options : List Opt) : Except UsageFault Unit :=
  match options.find? fun option => option.required && !invocation.has option with
  | some option => .error (.missingOption option)
  | none => if invocation.others.isEmpty then .ok () else .error (.extraArguments invocation.others)

end Invocation

end Interpose.Command
