import Interpose.Command.Run
import Interpose.Disk.Tree

/-!
# Runs of the program

Arguments that are complete run their command. A command that reads a definition file ends with the
report of why the file is refused, or goes on with what it holds. On a tree of files, reading leaves
the tree as it is.
-/

namespace Interpose.Command

/-- Complete arguments of a command, which do not ask for help. -/
structure Runs (command : Command) (arguments : List String) (invocation : Invocation) : Prop where
  /-- The arguments are read. -/
  reads : readArguments command.options true arguments = .ok invocation
  /-- Help is not asked for. -/
  noHelp : invocation.has helpOption = false
  /-- All required options are given, and nothing else is left. -/
  complete : invocation.check command.options = .ok ()

/-- The name of a command is found. -/
@[simp] theorem ofName?_name (command : Command) : ofName? command.name = some command := by
  cases command <;> decide

/-- The program takes the first argument for a command. -/
theorem readArguments_name (command : Command) (arguments : List String) :
    readArguments [helpOption] false (command.name :: arguments) =
      .ok ⟨[], command.name :: arguments⟩ := by
  have hname : command.name ≠ "--" ∧ namesOption command.name = false := by
    cases command <;> decide
  rw [readArguments, List.length_cons, ← Nat.add_assoc, readFrom, if_neg hname.1, hname.2]
  rfl

@[simp] theorem Report.errors_fault (path : String) (fault : Fault) :
    (Report.fault path fault).errors = report path fault.diagnostic := by
  rw [Report.fault]

variable {m : Type → Type} [Monad m]

/-- A command is run on the arguments after its name. -/
theorem run_name (command : Command) (arguments : List String) (disk : Disk m) (columns : Nat) :
    Command.run disk columns (command.name :: arguments) =
      runCommand disk columns command arguments := by
  have hhelp : Invocation.has ⟨[], command.name :: arguments⟩ helpOption = false := rfl
  rw [Command.run, if_neg (by simp), readArguments_name]
  simp only [hhelp, Bool.false_eq_true, if_false, ofName?_name]

/-- Complete arguments run their command. -/
theorem Runs.run {command : Command} {arguments : List String} {invocation : Invocation}
    (h : command.Runs arguments invocation) (disk : Disk m) (columns : Nat) :
    Command.run disk columns (command.name :: arguments) = act disk columns invocation command := by
  rw [run_name, runCommand, h.reads]
  simp only [h.noHelp, Bool.false_eq_true, if_false, h.complete]

/-- Arguments that are not complete are reported. -/
theorem run_of_incomplete {command : Command} {arguments : List String} {invocation : Invocation}
    {fault : UsageFault} (hreads : readArguments command.options true arguments = .ok invocation)
    (hhelp : invocation.has helpOption = false)
    (hcheck : invocation.check command.options = .error fault) (disk : Disk m) (columns : Nat) :
    Command.run disk columns (command.name :: arguments) =
      pure (.usage fault (some command)) := by
  rw [run_name, runCommand, hreads]
  simp only [hhelp, Bool.false_eq_true, if_false, hcheck]

/-! ## Definition files on a tree -/

variable {tree : Tree} {path : String} {next : ServiceFile → StateM Tree Report}

/-- A file that cannot be read is reported. -/
theorem withFile_of_read_error {fault : FileFault} (h : tree.read path = .error fault) :
    withFile Tree.disk path next tree = (.silent (.file fault), tree) := by
  simp only [withFile, bind, StateT.bind, Tree.disk, h]
  rfl

/-- A file that is refused is reported. -/
theorem withFile_of_refused {octets : List UInt8} {report : Report}
    (h : tree.read path = .ok octets) (hload : loadFile path octets = .error report) :
    withFile Tree.disk path next tree = (report, tree) := by
  simp only [withFile, bind, StateT.bind, Tree.disk, h, hload]
  rfl

/-- What an accepted file holds is gone on with. -/
theorem withFile_of_accepted {octets : List UInt8} {file : ServiceFile}
    (h : tree.read path = .ok octets) (hload : loadFile path octets = .ok file) :
    withFile Tree.disk path next tree = next file tree := by
  simp only [withFile, bind, StateT.bind, Tree.disk, h, hload]

/-- The tables of an accepted file are printed, and nothing is changed. -/
theorem Runs.run_tables {tree : Tree} {path : String} {file : ServiceFile} {octets : List UInt8}
    (hread : tree.read path = .ok octets) (hload : loadFile path octets = .ok file)
    {arguments : List String} {invocation : Invocation}
    (h : Command.info.Runs arguments invocation)
    (hinput : invocation.value? inputOption = some path)
    (hjson : invocation.has jsonOption = false) (columns : Nat) :
    Command.run Tree.disk columns (Command.info.name :: arguments) tree =
      (.success (summaryText columns file.services), tree) := by
  rw [h.run, act, runInfo, hinput, Option.getD_some, withFile_of_accepted hread hload, hjson]
  rfl

/-- Every command but the one for the support package reads a definition file first. -/
theorem exists_withFile_of_act {command : Command} (hcommand : command ≠ .runtime)
    (columns : Nat) (invocation : Invocation) : ∃ next : ServiceFile → StateM Tree Report,
      act Tree.disk columns invocation command =
        withFile Tree.disk ((invocation.value? inputOption).getD "") next := by
  cases command with
  | gen => exact ⟨_, rfl⟩
  | info => exact ⟨_, rfl⟩
  | runtime => exact absurd rfl hcommand

end Interpose.Command
