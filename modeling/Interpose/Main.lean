import Interpose.Command.Run

/-!
# The executable

The program on the disk, the arguments and the streams of the system.
-/

namespace Interpose

/-- The cause behind an error of the system. -/
def causeOf : IO.Error → FileCause
  | .noFileOrDirectory .. => .missing
  | .alreadyExists .. => .present
  | .inappropriateType _ 21 _ => .isDirectory
  | .inappropriateType .. => .notDirectory
  | .resourceExhausted _ 36 _ => .longName
  | error => .other 5 (toString error)

/-- Run an action for a path and turn an error of the system into a fault. -/
def asRequest {α : Type} (path : String) (action : IO α) : IO (Except FileFault α) := do
  if path.toList.contains '\x00' then return .error ⟨.zeroCharacter, path⟩
  try
    return .ok (← action)
  catch error =>
    return .error ⟨causeOf error, path⟩

/-- The disk of the system. -/
def systemDisk : Disk IO where
  read path := asRequest path do return (← IO.FS.readBinFile path).toList
  write path text := do
    let written ← asRequest path <| IO.FS.withFile path .write fun handle =>
      match Text.encodePoints text with
      | .error fault => return .error (.octets fault)
      | .ok octets => do
        handle.write ⟨octets.toArray⟩
        return .ok ()
    match written with
    | .error fault => return .error (.file fault)
    | .ok written => return written
  makeDirectories path := asRequest path (IO.FS.createDirAll path)

/-- The columns of a terminal. -/
def terminalColumns : Nat := 80

/-- What is printed for a failed request or a file that is no text. -/
def Command.Ending.message : Command.Ending → String
  | .exit _ => ""
  | .file fault => fault.message ++ "\n"
  | .octets fault => fault.message ++ "\n"

end Interpose

open Interpose in
/-- Run the program. -/
def main (arguments : List String) : IO UInt32 := do
  let report ← Command.run systemDisk terminalColumns arguments
  (← IO.getStdout).putStr report.output
  (← IO.getStderr).putStr (report.errors ++ report.ending.message)
  return report.ending.code.toUInt32
