import Interpose.Disk.Basic
import Interpose.Disk.Path

/-!
# Trees of files

A disk as a value: files with their octets and directories, each under a list of names from the
root. A file stands in all the directories that its names spell. Paths that do not begin at the
root begin at the home directory. The requests of a disk are functions on trees, so what a
program does to its disk can be computed.
-/

namespace Interpose

/-- The names that lead from the root to a file or a directory. -/
abbrev Tree.Names := List String

/-- A tree of files. -/
structure Tree where
  /-- The files with their octets. -/
  files : List (Tree.Names × List UInt8)
  /-- The directories in which there need not be a file. -/
  directories : List Tree.Names
  deriving DecidableEq, Repr

namespace Tree

/-- Where a path leads. -/
inductive Spot where
  /-- To a directory that it has gone through. -/
  | directory (names : Names)
  /-- To a name in a directory. The path asks for a directory if it ends in a slash. -/
  | entry (names : Names) (asDirectory : Bool)
  deriving DecidableEq, Repr

/-- What stands at a place. -/
inductive Target where
  /-- A directory. -/
  | directory
  /-- A file with its octets. -/
  | file (octets : List UInt8)
  /-- Nothing. -/
  | nothing
  deriving DecidableEq, Repr

/-- The directory at which paths begin that do not begin at the root. -/
def home : Names := ["tmp", "home"]

/-- The file that is always empty: what is written to it is gone. -/
def sink : Names := ["dev", "null"]

/-- The directories at the root. -/
def rootDirectories : List String :=
  ["bin", "boot", "dev", "etc", "home", "lib", "media", "mnt", "opt", "proc", "root", "run",
   "sbin", "srv", "sys", "tmp", "usr", "var"]

/-- The tree with files in the home directory and none elsewhere. -/
def ofFiles (files : List (Names × List UInt8)) : Tree where
  files := (sink, []) :: files.map fun (names, octets) => (home ++ names, octets)
  directories := home :: rootDirectories.map fun name => [name]

/-- Whether there is a directory under some names. -/
def isDirectory (tree : Tree) (names : Names) : Bool :=
  names.isEmpty || tree.directories.any (names.isPrefixOf ·) ||
    tree.files.any fun file => names.isPrefixOf file.1 && names != file.1

/-- The greatest number of octets of a name. -/
def longestName : Nat := 255

/-- The greatest number of octets of a path. -/
def longestPath : Nat := 4095

/-- What stands under some names, the last of which is a name in a directory. -/
def target (tree : Tree) (names : Names) : Except FileCause Target :=
  if names.any fun name => longestName < name.utf8ByteSize then .error .longName
  else if tree.isDirectory names then .ok .directory
  else .ok ((tree.files.lookup names).elim .nothing .file)

/-- Follow names from a directory on. All but the last one have to be directories. There is
nothing above the root but the root itself. -/
def walk (tree : Tree) (base : Names) : List (List Char) → Except FileCause Spot
  | [] => .ok (.directory base)
  | name :: rest =>
    if Path.isIdle name then tree.walk base rest
    else if name = ['.', '.'] then tree.walk base.dropLast rest
    else
      let next := base ++ [String.ofList name]
      if rest.all (·.isEmpty) then .ok (.entry next !rest.isEmpty)
      else
        match tree.target next with
        | .ok .directory => tree.walk next rest
        | .ok (.file _) => .error .notDirectory
        | .ok .nothing => .error .missing
        | .error cause => .error cause

/-- Where a path leads. -/
def spot (tree : Tree) (path : String) : Except FileCause Spot :=
  let cs := path.toList
  if cs.contains '\x00' then .error .zeroCharacter
  else if cs.isEmpty then .error .missing
  else if longestPath < path.utf8ByteSize then .error .longName
  else tree.walk (if Path.isAbsolute cs then [] else home) (cs.splitOn '/')

/-- The tree with octets in a file. -/
def put (tree : Tree) (names : Names) (octets : List UInt8) : Tree :=
  if names = sink then tree
  else if (tree.files.lookup names).isSome then
    { tree with files := tree.files.map fun file =>
        if file.1 = names then (names, octets) else file }
  else { tree with files := tree.files ++ [(names, octets)] }

/-- The octets of the file at a place. -/
def readAt (tree : Tree) : Spot → Except FileCause (List UInt8)
  | .directory _ => .error .isDirectory
  | .entry names asDirectory => do
    match ← tree.target names with
    | .directory => .error .isDirectory
    | .file octets => if asDirectory then .error .notDirectory else .ok octets
    | .nothing => .error .missing

/-- The file that is opened for writing at a place. A path that asks for a directory is refused
whatever stands there. -/
def openAt (tree : Tree) : Spot → Except FileCause Names
  | .directory _ | .entry _ true => .error .isDirectory
  | .entry names false => do
    match ← tree.target names with
    | .directory => .error .isDirectory
    | .file _ | .nothing => .ok names

/-- The tree with a directory at a place, where there may be one already. -/
def makeAt (tree : Tree) : Spot → Except FileCause Tree
  | .directory _ => .ok tree
  | .entry names _ => do
    match ← tree.target names with
    | .directory => .ok tree
    | .file _ => .error .present
    | .nothing => .ok { tree with directories := tree.directories ++ [names] }

/-- Do something at the place where a path leads. -/
def atPath {α : Type} (tree : Tree) (path : String) (act : Spot → Except FileCause α) :
    Except FileFault α :=
  match tree.spot path >>= act with
  | .ok a => .ok a
  | .error cause => .error ⟨cause, path⟩

/-- Read a file. -/
def read (tree : Tree) (path : String) : Except FileFault (List UInt8) :=
  tree.atPath path tree.readAt

/-- Write a text to a file, which is made or emptied first. -/
def write (tree : Tree) (path : String) (text : List Text.CodePoint) :
    Except WriteFault Unit × Tree :=
  match tree.atPath path tree.openAt with
  | .error fault => (.error (.file fault), tree)
  | .ok names =>
    let opened := tree.put names []
    match Text.encodePoints text with
    | .error fault => (.error (.octets fault), opened)
    | .ok octets => (.ok (), opened.put names octets)

/-- Make one directory, unless it is there already. -/
def makeDirectory (tree : Tree) (path : String) : Except FileFault Tree :=
  tree.atPath path tree.makeAt

/-- Make the first of some directories, each below the next one. Where one is missing, the next
one is made before it. -/
def makeUpwards (tree : Tree) : List String → Except FileFault Tree
  | [] => .ok tree
  | path :: above =>
    match tree.makeDirectory path, above with
    | .error ⟨.missing, path⟩, [] => .error ⟨.missing, path⟩
    | .error ⟨.missing, path⟩, above => do (← tree.makeUpwards above).makeDirectory path
    | made, _ => made

/-- Make a directory and those above it. -/
def makeDirectories (tree : Tree) (path : String) : Except FileFault Tree :=
  tree.makeUpwards ((Path.upwards path.toList).map String.ofList)

/-- A tree as a disk. Where directories cannot be made, it is left as it is. -/
def disk : Disk (StateM Tree) where
  read path := fun tree => (tree.read path, tree)
  write path text := fun tree => tree.write path text
  makeDirectories path := fun tree =>
    match tree.makeDirectories path with
    | .ok made => (.ok (), made)
    | .error fault => (.error fault, tree)

/-- The files in the home directory of a tree that another tree does not hold with the same octets,
each with its names from there. -/
def changes (before after : Tree) : List (Names × List UInt8) :=
  (after.files.filter fun file =>
    home.isPrefixOf file.1 && before.files.lookup file.1 != some file.2).map fun (names, octets) =>
      (names.drop home.length, octets)

end Tree

end Interpose
