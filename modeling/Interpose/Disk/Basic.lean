import Interpose.Text.Octets

/-!
# Disks

What the program asks of a disk: to read a file, to write one, and to make a directory with the
directories above it. A request either succeeds or fails with a numbered cause. A file that is
written is made or emptied first. So it is left empty when there are no octets for the text.
-/

namespace Interpose

/-- Why a request to a disk fails. -/
inductive FileCause where
  /-- There is nothing under the path. -/
  | missing
  /-- There is something under the path already. -/
  | present
  /-- What should be a directory is a file. -/
  | notDirectory
  /-- What should be a file is a directory. -/
  | isDirectory
  /-- The path, or a name in it, is too long. -/
  | longName
  /-- The path holds a zero character, so the disk cannot be asked at all. -/
  | zeroCharacter
  /-- Another cause, by its number and text. -/
  | other (number : Nat) (text : String)
  deriving DecidableEq, Repr

namespace FileCause

/-- The number of a cause. -/
def number : FileCause → Nat
  | .missing => 2
  | .present => 17
  | .notDirectory => 20
  | .isDirectory => 21
  | .longName => 36
  | .zeroCharacter => 22
  | .other number _ => number

/-- A cause in words. -/
def text : FileCause → String
  | .missing => "No such file or directory"
  | .present => "File exists"
  | .notDirectory => "Not a directory"
  | .isDirectory => "Is a directory"
  | .longName => "File name too long"
  | .zeroCharacter => "embedded null byte"
  | .other _ text => text

end FileCause

/-- A request that failed. -/
structure FileFault where
  /-- Why it failed. -/
  cause : FileCause
  /-- The path that was asked for. -/
  path : String
  deriving DecidableEq, Repr

/-- What a failed request says. One that never reached the disk has no number and no path. -/
def FileFault.message (fault : FileFault) : String :=
  if fault.cause = .zeroCharacter then fault.cause.text
  else
    "[Errno " ++ toString fault.cause.number ++ "] " ++ fault.cause.text ++ ": " ++
      Text.quoted fault.path

/-- Why a text is not written to a file. -/
inductive WriteFault where
  /-- The file is not opened. -/
  | file (fault : FileFault)
  /-- There are no octets for the text. -/
  | octets (fault : Text.OctetFault)
  deriving DecidableEq, Repr

/-- A disk whose requests have effects in `m`. -/
structure Disk (m : Type → Type) where
  /-- The octets of a file. -/
  read : String → m (Except FileFault (List UInt8))
  /-- Write a text to a file, which is made or emptied first. -/
  write : String → List Text.CodePoint → m (Except WriteFault Unit)
  /-- Make a directory and the directories above it, as far as they are missing. -/
  makeDirectories : String → m (Except FileFault Unit)

end Interpose
