import Interpose.Command.Diagnostic
import Interpose.Command.Help
import Interpose.Command.Summary
import Interpose.Disk.Path
import Interpose.Disk.Basic
import Interpose.Generate
import Interpose.Text.Octets
import Interpose.Wrapper.Support

/-!
# The program

The program reads its arguments, asks its disk for what it needs, and reports what it prints and
how it ends. A definition file is read completely before anything is written.
-/

namespace Interpose.Command

/-- How the program ends. -/
inductive Ending where
  /-- With an exit code. -/
  | exit (code : Nat)
  /-- With a failed request to the disk. -/
  | file (fault : FileFault)
  /-- With a file that is no text, or a text that is written to no file. -/
  | octets (fault : Text.OctetFault)
  deriving DecidableEq, Repr

/-- How the program ends when a file is not written. -/
def Ending.ofWrite : WriteFault → Ending
  | .file fault => .file fault
  | .octets fault => .octets fault

/-- The exit code of an ending. -/
def Ending.code : Ending → Nat
  | .exit code => code
  | .file _ | .octets _ => 1

/-- What the program prints, and how it ends. -/
structure Report where
  /-- What it prints. -/
  output : String
  /-- What it prints as errors. -/
  errors : String
  /-- How it ends. -/
  ending : Ending
  deriving DecidableEq, Repr

namespace Report

/-- The program prints a text and ends well. -/
def success (output : String) : Report := ⟨output, "", .exit 0⟩

/-- The program ends for a fault in its arguments or in those of a command. -/
def usage (fault : UsageFault) (command : Option Command) : Report :=
  ⟨"", fault.report command, .exit 2⟩

/-- The program ends for a fault in a definition file. -/
def fault (file : String) (fault : Fault) : Report :=
  ⟨"", report file fault.diagnostic, .exit 1⟩

/-- The program ends without printing. -/
def silent (ending : Ending) : Report := ⟨"", "", ending⟩

end Report

/-- What a file with some octets holds, or the report of why it is not accepted. -/
def loadFile (path : String) (octets : List UInt8) : Except Report ServiceFile :=
  match Text.decodeOctets octets with
  | .error fault => .error (.silent (.octets fault))
  | .ok cs =>
    match ServiceFile.ofText (String.ofList (Text.unifyNewlines cs)) with
    | .error fault => .error (.fault path fault)
    | .ok file => .ok file

variable {m : Type → Type} [Monad m]

/-- Read a definition file and go on with what it holds. -/
def withFile (disk : Disk m) (path : String) (next : ServiceFile → m Report) : m Report := do
  match ← disk.read path with
  | .error fault => return .silent (.file fault)
  | .ok octets =>
    match loadFile path octets with
    | .error report => return report
    | .ok file => next file

/-- Write the module of a definition file to an output. -/
def writeModule (disk : Disk m) (input output : String) (support : List Text.CodePoint) :
    m Report :=
  withFile disk input fun file => do
    match ← disk.write output (file.modulePoints support) with
    | .error fault => return .silent (.ofWrite fault)
    | .ok () => return .success ""

/-- Generate the module of a definition file. -/
def runGen (disk : Disk m) (invocation : Invocation) : m Report :=
  writeModule disk ((invocation.value? inputOption).getD "")
    ((invocation.value? outputOption).getD "")
    (Text.points ((invocation.value? supportOption).getD defaultSupport))

/-- Show the services of a definition file. -/
def runInfo (disk : Disk m) (columns : Nat) (invocation : Invocation) : m Report :=
  withFile disk ((invocation.value? inputOption).getD "") fun file =>
    return .success <|
      if invocation.has jsonOption then
        textOfLines [(summaryJson file.services).render .indented]
      else summaryText columns file.services

/-- Write files into a directory, up to the first that cannot be written. -/
def writeFiles (disk : Disk m) (directory : String) :
    List SupportFile → m (Except WriteFault Unit)
  | [] => return .ok ()
  | file :: files => do
    match ← disk.write (Path.join directory file.name) (Text.points file.text) with
    | .error fault => return .error fault
    | .ok () => writeFiles disk directory files

/-- Write the support package. -/
def runRuntime (disk : Disk m) (invocation : Invocation) : m Report := do
  let directory := Path.join ((invocation.value? directoryOption).getD ".")
    ((invocation.value? nameOption).getD defaultSupport)
  match ← disk.makeDirectories directory with
  | .error fault => return .silent (.file fault)
  | .ok () =>
    match ← writeFiles disk directory supportFiles with
    | .error fault => return .silent (.ofWrite fault)
    | .ok () => return .success (textOfLines ["Generated Python runtime in " ++ directory])

/-- Run a command on what its arguments say. -/
def act (disk : Disk m) (columns : Nat) (invocation : Invocation) : Command → m Report
  | .gen => runGen disk invocation
  | .info => runInfo disk columns invocation
  | .runtime => runRuntime disk invocation

/-- Run a command. -/
def runCommand (disk : Disk m) (columns : Nat) (command : Command) (arguments : List String) :
    m Report :=
  match readArguments command.options true arguments with
  | .error fault => return .usage fault (some command)
  | .ok invocation =>
    if invocation.has helpOption then return .success (help (helpWidth columns) command)
    else
      match invocation.check command.options with
      | .error fault => return .usage fault (some command)
      | .ok () => act disk columns invocation command

/-- Report that there is no command with a name. A name that looks like an option is first
read as one. -/
def noCommand (columns : Nat) (name : String) (arguments : List String) : Report :=
  match readArguments [helpOption] false arguments with
  | .error fault => .usage fault none
  | .ok invocation =>
    if invocation.has helpOption then .success (programHelp (helpWidth columns))
    else .usage (.noSuchCommand name (closeNames (all.map (·.name)) name)) none

/-- Run the program. -/
def run (disk : Disk m) (columns : Nat) (arguments : List String) : m Report :=
  if arguments.isEmpty then return ⟨"", programHelp (helpWidth columns), .exit 2⟩
  else
    match readArguments [helpOption] false arguments with
    | .error fault => return .usage fault none
    | .ok invocation =>
      if invocation.has helpOption then return .success (programHelp (helpWidth columns))
      else
        match invocation.others with
        | [] => return .usage .missingCommand none
        | name :: rest =>
          match ofName? name with
          | some command => runCommand disk columns command rest
          | none => return noCommand columns name (name :: rest)

end Interpose.Command
