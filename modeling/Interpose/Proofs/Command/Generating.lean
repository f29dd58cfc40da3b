import Interpose.Proofs.Command.Arguments
import Interpose.Proofs.Command.Run
import Interpose.Proofs.Disk.Writing
import Interpose.Proofs.Text.Octets
import Interpose.Proofs.Wrapper.Lines

/-!
# The command for modules

The command ends well exactly when its input is a file that holds a text which is accepted, and its
output can be opened. The output then holds the module of the text, unless it keeps nothing, and
nothing else on the disk is changed. Otherwise nothing at all is changed: everything that may fail
for arguments that are strings comes before the output is opened. A support package with a surrogate
in its name is noticed only then, when the output is empty already.
-/

namespace Interpose.Command

open Text

/-! ## What the arguments say -/

/-- An option of the command for modules. -/
inductive GenOption where
  /-- The definition file. -/
  | input (path : String)
  /-- The file of the module. -/
  | output (path : String)
  /-- The support package, whose name may be left out. -/
  | support (package : Option String)
  deriving DecidableEq, Repr

namespace GenOption

/-- The definition file that an option names. -/
def input? : GenOption → Option String
  | .input path => some path
  | _ => none

/-- The file of the module that an option names. -/
def output? : GenOption → Option String
  | .output path => some path
  | _ => none

/-- The support package that an option names. -/
def support? : GenOption → Option String
  | .support package => some (package.getD "hookwire.runtime")
  | _ => none

/-- What the last option of those that say it says. -/
def last? (read : GenOption → Option String) (options : List GenOption) : Option String :=
  (options.filterMap read).getLast?

/-- The support package that options name. -/
def supportOf (options : List GenOption) : String :=
  (last? support? options).getD "hookwire_runtime"

/-- How a value is written behind its option. -/
inductive Valued (short long value : String) : List String → Prop where
  /-- After the short name. -/
  | short : Valued short long value [short, value]
  /-- After the long name. -/
  | long : Valued short long value [long, value]
  /-- Behind the long name and an equals sign. -/
  | attached : Valued short long value [long ++ "=" ++ value]
  /-- Right behind the short name, if there is something to be written. -/
  | letter (h : value ≠ "") : Valued short long value [short ++ value]

/-- How options are written as arguments. -/
inductive Writes : List GenOption → List String → Prop where
  /-- Nothing is left. -/
  | done : Writes [] []
  /-- Two dashes end the options. -/
  | dashes : Writes [] ["--"]
  /-- The definition file. -/
  | input {path : String} {front : List String} {options : List GenOption}
    {arguments : List String} (h : Valued "-i" "--input" path front)
    (rest : Writes options arguments) : Writes (.input path :: options) (front ++ arguments)
  /-- The file of the module. -/
  | output {path : String} {front : List String} {options : List GenOption}
    {arguments : List String} (h : Valued "-o" "--output" path front)
    (rest : Writes options arguments) : Writes (.output path :: options) (front ++ arguments)
  /-- The support package without its name. -/
  | bare {options : List GenOption} {arguments : List String} (rest : Writes options arguments) :
    Writes (.support none :: options) ("--runtime-import" :: arguments)
  /-- The support package before its name, which does not look like an option. -/
  | named {package : String} {options : List GenOption} {arguments : List String}
    (h : namesOption package = false) (rest : Writes options arguments) :
    Writes (.support (some package) :: options) ("--runtime-import" :: package :: arguments)
  /-- The support package with an equals sign before its name. -/
  | attached {package : String} {options : List GenOption} {arguments : List String}
    (h : namesOption package = false) (rest : Writes options arguments) :
    Writes (.support (some package) :: options) (("--runtime-import=" ++ package) :: arguments)

/-- An option as it is read. -/
def given : GenOption → Given
  | .input path => ⟨inputOption, some path⟩
  | .output path => ⟨outputOption, some path⟩
  | .support package => ⟨supportOption, some (package.getD "hookwire.runtime")⟩

/-- A word that begins with the short name writes the value that is left of it. -/
theorem Valued.oneWord {short long value word : String} (hvalue : value ≠ "")
    (hword : short ++ value = word) : Valued short long value [word] := by
  subst hword
  exact .letter hvalue

/-- A value that is written behind its option is read as the option's. -/
theorem Valued.spelled {option : Opt} {letter : Char} {value : String} {front : List String}
    {given : List Given} {arguments : List String}
    (h : Valued (shortName letter) option.long value front) (hoption : option ∈ Command.gen.options)
    (hshort : option.short = some letter) (htakes : option.takes = .text)
    (rest : Spelled Command.gen.options given arguments) :
    Spelled Command.gen.options (⟨option, some value⟩ :: given) (front ++ arguments) := by
  have haccepts : option.takes.Accepts value := by
    rw [htakes]
    trivial
  cases h with
  | short => exact .next hoption (Opt.mem_names_iff.mpr (.inl ⟨letter, hshort, rfl⟩)) haccepts rest
  | long => exact .next hoption (Opt.mem_names_iff.mpr (.inr rfl)) haccepts rest
  | attached => exact .attached hoption haccepts rest
  | letter h => exact .letter hoption hshort h haccepts rest

/-- Written options are read in their order. -/
theorem Writes.spelled {options : List GenOption} {arguments : List String}
    (h : Writes options arguments) :
    Spelled Command.gen.options (options.map given) arguments := by
  have hinput : inputOption ∈ Command.gen.options := by decide +kernel
  have houtput : outputOption ∈ Command.gen.options := by decide +kernel
  have hsupport : supportOption ∈ Command.gen.options := by decide +kernel
  have hname : "--runtime-import" ∈ supportOption.names := by decide +kernel
  induction h with
  | done => exact .done
  | dashes => exact .dashes
  | input h _ ih => exact @Valued.spelled inputOption 'i' _ _ _ _ h hinput rfl rfl ih
  | output h _ ih => exact @Valued.spelled outputOption 'o' _ _ _ _ h houtput rfl rfl ih
  | bare _ ih => exact .bare hsupport hname rfl ih
  | named h _ ih => exact .next hsupport hname h ih
  | @attached package _ _ h _ ih =>
    have hattached := @Spelled.attached _ supportOption package _ _ hsupport h ih
    have heq : supportOption.long ++ "=" ++ package = "--runtime-import=" ++ package := by
      rw [show supportOption.long ++ "=" = "--runtime-import=" by decide +kernel]
    rwa [heq] at hattached

/-- Written options are all that is read. -/
theorem Writes.readArguments {options : List GenOption} {arguments : List String}
    (h : Writes options arguments) :
    Command.readArguments Command.gen.options true arguments = .ok ⟨options.map given, []⟩ :=
  h.spelled.readArguments (distinct_options .gen)

/-- The value of an option is what the last one that gives it says. -/
theorem value?_given {option : Opt} {read : GenOption → Option String}
    (h : ∀ one : GenOption, read one =
      if one.given.option.long = option.long then one.given.value else none)
    (options : List GenOption) :
    Invocation.value? ⟨options.map given, []⟩ option = last? read options := by
  have hfind : ∀ options : List GenOption,
      ((options.map given).find? fun given => given.option.long = option.long).bind (·.value) =
        options.findSome? read := by
    intro options
    induction options with
    | nil => rfl
    | cons one options ih =>
      rw [List.map_cons, List.find?_cons, List.findSome?_cons, h one]
      by_cases hone : one.given.option.long = option.long
      · simp only [hone, decide_true, if_true, Option.bind_some]
        cases one <;> rfl
      · simp only [hone, decide_false, if_false]
        exact ih
  rw [Invocation.value?, ← List.map_reverse, hfind, last?, List.getLast?_eq_head?_reverse,
    ← List.filterMap_reverse, List.head?_filterMap]

theorem value?_input (options : List GenOption) :
    Invocation.value? ⟨options.map given, []⟩ inputOption = last? input? options := by
  apply value?_given
  intro one
  cases one <;> simp [input?, given, inputOption, outputOption, supportOption]

theorem value?_output (options : List GenOption) :
    Invocation.value? ⟨options.map given, []⟩ outputOption = last? output? options := by
  apply value?_given
  intro one
  cases one <;> simp [output?, given, inputOption, outputOption, supportOption]

theorem value?_support (options : List GenOption) :
    Invocation.value? ⟨options.map given, []⟩ supportOption = last? support? options := by
  apply value?_given
  intro one
  cases one <;> simp [support?, given, inputOption, outputOption, supportOption]

/-- An option is given when it has a value, as long as no switch is given. -/
theorem has_eq_isSome_value? {invocation : Invocation}
    (h : ∀ given ∈ invocation.given, given.value.isSome = true) (option : Opt) :
    invocation.has option = (invocation.value? option).isSome := by
  rw [Invocation.has, Invocation.value?]
  cases hfind : invocation.given.reverse.find? fun given => given.option.long = option.long with
  | none =>
    rw [Option.bind_none, Option.isSome_none, List.any_eq_false]
    intro given hgiven
    exact List.find?_eq_none.mp hfind given (List.mem_reverse.mpr hgiven)
  | some given =>
    have hgiven : given ∈ invocation.given :=
      List.mem_reverse.mp (List.mem_of_find?_eq_some hfind)
    rw [Option.bind_some, h given hgiven, List.any_eq_true]
    exact ⟨given, hgiven, by simpa using List.find?_some hfind⟩

/-- No option of the command asks for help. -/
theorem has_help (options : List GenOption) :
    Invocation.has ⟨options.map given, []⟩ helpOption = false := by
  rw [Invocation.has, List.any_eq_false]
  intro one hone
  obtain ⟨option, -, rfl⟩ := List.mem_map.mp hone
  cases option <;> simp [given, inputOption, outputOption, supportOption, helpOption]

/-- Options are complete when they name both files. -/
theorem check_eq_ok_iff {options : List GenOption} :
    Invocation.check ⟨options.map given, []⟩ Command.gen.options = .ok () ↔
      (∃ input, last? input? options = some input) ∧
        ∃ output, last? output? options = some output := by
  have hvalues : ∀ one ∈ options.map given, one.value.isSome = true := by
    intro one hone
    obtain ⟨option, -, rfl⟩ := List.mem_map.mp hone
    cases option <;> rfl
  have hin : Invocation.has ⟨options.map given, []⟩ inputOption =
      (last? input? options).isSome := by
    rw [has_eq_isSome_value? hvalues, value?_input]
  have hout : Invocation.has ⟨options.map given, []⟩ outputOption =
      (last? output? options).isSome := by
    rw [has_eq_isSome_value? hvalues, value?_output]
  have hrequired : inputOption.required = true ∧ outputOption.required = true ∧
      supportOption.required = false ∧ helpOption.required = false := by decide
  rw [← Option.isSome_iff_exists, ← Option.isSome_iff_exists, Invocation.check, Command.options]
  simp only [List.find?_cons, List.find?_nil, hin, hout, hrequired, Bool.true_and, Bool.false_and]
  cases (last? input? options).isSome <;> cases (last? output? options).isSome <;> simp

end GenOption

/-! ## Definition files -/

/-- Octets are loaded when they are a text that is accepted. -/
theorem loadFile_eq_ok_iff {path : String} {octets : List UInt8} {file : ServiceFile} :
    loadFile path octets = .ok file ↔ ∃ text, octets = encodeOctets text ∧
      ServiceFile.ofText (String.ofList (unifyNewlines text.toList)) = .ok file := by
  constructor
  · intro h
    rw [loadFile] at h
    split at h
    · cases h
    · rename_i cs hdecode
      split at h
      · cases h
      · rename_i accepted haccepted
        obtain rfl := Except.ok.inj h
        refine ⟨String.ofList cs, decodeOctets_eq_ok_iff.mp hdecode, ?_⟩
        rw [String.toList_ofList]
        exact haccepted
  · rintro ⟨text, rfl, haccepted⟩
    rw [loadFile]
    simp only [decodeOctets_encodeOctets, haccepted]

/-- A text that is refused is reported. -/
theorem loadFile_of_fault {path text : String} {fault : Fault}
    (h : ServiceFile.ofText (String.ofList (unifyNewlines text.toList)) = .error fault) :
    loadFile path (encodeOctets text) = .error (.fault path fault) := by
  rw [loadFile]
  simp only [decodeOctets_encodeOctets, h]

/-- Octets that are not loaded are no success. -/
theorem code_of_loadFile {path : String} {octets : List UInt8} {report : Report}
    (h : loadFile path octets = .error report) : report.ending.code ≠ 0 := by
  rw [loadFile] at h
  split at h
  · obtain rfl := Except.error.inj h
    exact Nat.one_ne_zero
  · split at h
    · obtain rfl := Except.error.inj h
      exact Nat.one_ne_zero
    · cases h

/-! ## Runs -/

open GenOption (last? input? output? supportOf given value?_input value?_output value?_support)

/-- The input is a file with a text for which there is a module, and the output can be opened. -/
structure Generates (tree : Tree) (options : List GenOption) (text code : String)
    (names : Tree.Names) : Prop where
  /-- The input is a file that holds the text. -/
  holds : ∃ input, last? input? options = some input ∧ tree.read input = .ok (encodeOctets text)
  /-- The text, with its newlines unified, has a module. -/
  accepted : generate (supportOf options) (String.ofList (unifyNewlines text.toList)) = .ok code
  /-- The output can be opened. -/
  opens : ∃ output, last? output? options = some output ∧ tree.Opens output names

/-- A text has one module, and a path leads to one file. -/
theorem Generates.unique {tree : Tree} {options : List GenOption}
    {text code other otherCode : String} {names otherNames : Tree.Names}
    (h : Generates tree options text code names)
    (hother : Generates tree options other otherCode otherNames) :
    code = otherCode ∧ names = otherNames := by
  obtain ⟨input, hinput, hread⟩ := h.holds
  obtain ⟨otherInput, hotherInput, hotherRead⟩ := hother.holds
  obtain rfl := Option.some.inj (hinput.symm.trans hotherInput)
  obtain ⟨output, houtput, hopens⟩ := h.opens
  obtain ⟨otherOutput, hotherOutput, hotherOpens⟩ := hother.opens
  obtain rfl := Option.some.inj (houtput.symm.trans hotherOutput)
  have hoctets : encodeOctets text = encodeOctets other :=
    Except.ok.inj (hread.symm.trans hotherRead)
  have hcode := h.accepted
  rw [encodeOctets_injective hoctets, hother.accepted] at hcode
  have hspot := hopens.leads.symm.trans hotherOpens.leads
  simp only [Except.ok.injEq, Tree.Spot.entry.injEq, and_true] at hspot
  exact ⟨(Except.ok.inj hcode).symm, hspot⟩

/-- How the command reports that it has written a module, or has not. -/
def writeReport : Except WriteFault Unit → Report
  | .ok () => .success ""
  | .error fault => .silent (.ofWrite fault)

/-- Every failure to write is reported as one. -/
theorem code_writeReport_error (fault : WriteFault) :
    (writeReport (.error fault)).ending.code ≠ 0 := by
  cases fault with
  | file fault => exact Nat.one_ne_zero
  | octets fault => exact Nat.one_ne_zero

/-- The module of an accepted file is written to an output, and the report says how that went. -/
theorem writeModule_of_file {tree after : Tree} {input output : String}
    {support : List CodePoint} {octets : List UInt8} {file : ServiceFile}
    {written : Except WriteFault Unit} (hread : tree.read input = .ok octets)
    (hload : loadFile input octets = .ok file)
    (hwrite : tree.write output (file.modulePoints support) = (written, after)) :
    writeModule Tree.disk input output support tree = (writeReport written, after) := by
  rw [writeModule, withFile_of_accepted hread hload]
  simp only [bind, StateT.bind, Tree.disk, hwrite]
  cases written <;> rfl

/-- The module of an accepted file is written where the arguments say, and the report says how that
went. -/
theorem runGen_of_file {tree after : Tree} {invocation : Invocation} {input output : String}
    (hinput : invocation.value? inputOption = some input)
    (houtput : invocation.value? outputOption = some output) {octets : List UInt8}
    {file : ServiceFile} {written : Except WriteFault Unit} (hread : tree.read input = .ok octets)
    (hload : loadFile input octets = .ok file)
    (hwrite : tree.write output
      (points (file.moduleText ((invocation.value? supportOption).getD defaultSupport))) =
        (written, after)) :
    runGen Tree.disk invocation tree = (writeReport written, after) := by
  rw [runGen, hinput, Option.getD_some, houtput, Option.getD_some]
  refine writeModule_of_file hread hload ?_
  rw [ServiceFile.modulePoints, modulePoints_points]
  exact hwrite

section

variable {options : List GenOption} {tree : Tree} {input output : String}
  (hinput : last? input? options = some input) (houtput : last? output? options = some output)

include hinput in
/-- A definition file that cannot be read is reported. -/
theorem runGen_of_read_error {fault : FileFault} (hread : tree.read input = .error fault) :
    runGen Tree.disk ⟨options.map given, []⟩ tree = (.silent (.file fault), tree) := by
  rw [runGen, value?_input, hinput, Option.getD_some, writeModule]
  exact withFile_of_read_error hread

include hinput in
/-- A definition file that is not loaded is reported. -/
theorem runGen_of_refused {octets : List UInt8} {report : Report}
    (hread : tree.read input = .ok octets) (hload : loadFile input octets = .error report) :
    runGen Tree.disk ⟨options.map given, []⟩ tree = (report, tree) := by
  rw [runGen, value?_input, hinput, Option.getD_some, writeModule]
  exact withFile_of_refused hread hload

include hinput houtput

/-- The module of an accepted file is written, and the report says how that went. -/
theorem runGen_of_loaded {octets : List UInt8} {file : ServiceFile} {after : Tree}
    {written : Except WriteFault Unit} (hread : tree.read input = .ok octets)
    (hload : loadFile input octets = .ok file)
    (hwrite : tree.write output (points (file.moduleText (supportOf options))) =
      (written, after)) :
    runGen Tree.disk ⟨options.map given, []⟩ tree = (writeReport written, after) := by
  rw [supportOf, ← value?_support] at hwrite
  rw [← value?_input] at hinput
  rw [← value?_output] at houtput
  exact runGen_of_file hinput houtput hread hload hwrite

/-- Where there is a module and a place for it, the file is loaded and the output can be opened. -/
theorem Generates.loaded {text code : String} {names : Tree.Names}
    (h : Generates tree options text code names) :
    ∃ octets file, tree.read input = .ok octets ∧ loadFile input octets = .ok file ∧
      tree.Opens output names := by
  obtain ⟨path, hpath, hread⟩ := h.holds
  obtain rfl := Option.some.inj (hinput.symm.trans hpath)
  obtain ⟨path, hpath, hopens⟩ := h.opens
  obtain rfl := Option.some.inj (houtput.symm.trans hpath)
  obtain ⟨file, hfile, -⟩ := map_eq_ok_iff.mp h.accepted
  exact ⟨_, file, hread, loadFile_eq_ok_iff.mpr ⟨text, rfl, hfile⟩, hopens⟩

/-- What the command does when the options name both files: it either writes the module, or it
fails and changes nothing. -/
theorem runGen_cases (tree : Tree) :
    (∃ text code names, Generates tree options text code names ∧
      runGen Tree.disk ⟨options.map given, []⟩ tree =
        (.success "", tree.put names (encodeOctets code))) ∨
    (∀ text code names, ¬ Generates tree options text code names) ∧
      ∃ report : Report, report.ending.code ≠ 0 ∧
        runGen Tree.disk ⟨options.map given, []⟩ tree = (report, tree) := by
  cases hread : tree.read input with
  | error fault =>
    right
    constructor
    · intro text code names hgenerates
      obtain ⟨octets, file, hok, -, -⟩ := hgenerates.loaded hinput houtput
      rw [hread] at hok
      cases hok
    · exact ⟨.silent (.file fault), Nat.one_ne_zero, runGen_of_read_error hinput hread⟩
  | ok octets =>
    cases hload : loadFile input octets with
    | error report =>
      right
      constructor
      · intro text code names hgenerates
        obtain ⟨others, file, hother, hok, -⟩ := hgenerates.loaded hinput houtput
        obtain rfl := Except.ok.inj (hread.symm.trans hother)
        rw [hload] at hok
        cases hok
      · exact ⟨report, code_of_loadFile hload, runGen_of_refused hinput hread hload⟩
    | ok file =>
      by_cases hopens : ∃ names, tree.Opens output names
      · left
        obtain ⟨names, hopens⟩ := hopens
        have hrun := runGen_of_loaded hinput houtput hread hload (hopens.write_points _)
        obtain ⟨text, rfl, hfile⟩ := loadFile_eq_ok_iff.mp hload
        refine ⟨text, file.moduleText (supportOf options), names, ⟨⟨input, hinput, hread⟩, ?_,
          ⟨output, houtput, hopens⟩⟩, hrun⟩
        exact map_eq_ok_iff.mpr ⟨file, hfile, rfl⟩
      · right
        obtain ⟨fault, hwrite⟩ :=
          Tree.exists_write_eq_error (fun names h => hopens ⟨names, h⟩)
            (points (file.moduleText (supportOf options)))
        constructor
        · intro text code names hgenerates
          obtain ⟨-, -, -, -, hplace⟩ := hgenerates.loaded hinput houtput
          exact hopens ⟨names, hplace⟩
        · exact ⟨_, code_writeReport_error (.file fault),
            runGen_of_loaded hinput houtput hread hload hwrite⟩

end

variable {options : List GenOption} {arguments : List String}

/-- Options that name both files run the command. -/
theorem run_gen_of_complete (h : GenOption.Writes options arguments) {input output : String}
    (hinput : last? input? options = some input) (houtput : last? output? options = some output)
    (tree : Tree) (columns : Nat) :
    Command.run Tree.disk columns (Command.gen.name :: arguments) tree =
      runGen Tree.disk ⟨options.map given, []⟩ tree := by
  have hruns : Command.gen.Runs arguments ⟨options.map given, []⟩ :=
    ⟨h.readArguments, GenOption.has_help options,
      GenOption.check_eq_ok_iff.mpr ⟨⟨input, hinput⟩, ⟨output, houtput⟩⟩⟩
  rw [hruns.run]
  rfl

/-- The command either writes the module, or it fails and changes nothing. -/
theorem run_gen_cases (h : GenOption.Writes options arguments) (tree : Tree) (columns : Nat) :
    (∃ text code names, Generates tree options text code names ∧
      Command.run Tree.disk columns (Command.gen.name :: arguments) tree =
        (.success "", tree.put names (encodeOctets code))) ∨
    (∀ text code names, ¬ Generates tree options text code names) ∧
      ∃ report : Report, report.ending.code ≠ 0 ∧
        Command.run Tree.disk columns (Command.gen.name :: arguments) tree = (report, tree) := by
  cases hcheck : Invocation.check ⟨options.map given, []⟩ Command.gen.options with
  | ok =>
    obtain ⟨⟨input, hinput⟩, ⟨output, houtput⟩⟩ := GenOption.check_eq_ok_iff.mp hcheck
    rw [run_gen_of_complete h hinput houtput]
    exact runGen_cases hinput houtput tree
  | error fault =>
    right
    constructor
    · rintro text code names ⟨⟨input, hinput, -⟩, -, ⟨output, houtput, -⟩⟩
      rw [GenOption.check_eq_ok_iff.mpr ⟨⟨input, hinput⟩, ⟨output, houtput⟩⟩] at hcheck
      cases hcheck
    · refine ⟨.usage fault (some .gen), Nat.succ_ne_zero 1, ?_⟩
      rw [run_of_incomplete h.readArguments (GenOption.has_help options) hcheck]
      rfl

/-- A report on a fault says something. -/
theorem report_ne_empty (file : String) (diagnostic : Diagnostic) :
    Command.report file diagnostic ≠ "" := by
  intro hempty
  have hlist := congrArg String.toList hempty
  rw [Command.report, List.singleton_append, textOfLines, List.map_cons, String.join_cons] at hlist
  simp [String.toList_append] at hlist

/-- What is left of the command for modules: a report and a tree of files. -/
structure AllOrNothing (tree : Tree) (options : List GenOption) (report : Report) (after : Tree) :
    Prop where
  /-- The command ends well exactly when there is a module and a place for it. -/
  succeeds : report.ending.code = 0 ↔ ∃ text code names, Generates tree options text code names
  /-- The module is then written to its place, and nothing else is changed. -/
  writes : ∀ text code names, Generates tree options text code names →
    tree.Written after names (encodeOctets code)
  /-- What is written is what the output is then read as, unless it keeps nothing. -/
  reads : ∀ text code names, Generates tree options text code names → names ≠ Tree.sink →
    ∀ output, last? output? options = some output → after.read output = .ok (encodeOctets code)
  /-- In every other case nothing is changed. -/
  keeps : report.ending.code ≠ 0 → after = tree
  /-- A text without a module is reported by its fault. -/
  reports : ∀ input output text fault, last? input? options = some input →
    last? output? options = some output → tree.read input = .ok (encodeOctets text) →
    generate (supportOf options) (String.ofList (unifyNewlines text.toList)) = .error fault →
    report.ending.code = 1 ∧ report.output = "" ∧
      report.errors = Command.report input fault.diagnostic ∧ report.errors ≠ ""

/-- A tree with a definition file and an old module. -/
def importTree : Tree :=
  .ofFiles [(["in"], encodeOctets "import a\n"), (["out"], encodeOctets "pass\n")]

/-- Options that name the files and ask for the support package of the library. -/
def importOptions : List GenOption := [.input "in", .support none, .output "out"]

/-- The arguments say these options. -/
theorem writes_import :
    GenOption.Writes importOptions ["-i", "in", "--runtime-import", "-oout"] :=
  .input .short (.bare (.output (.oneWord (by decide) (by decide +kernel)) .done))

/-- A support package with a surrogate in its name fails after the output is opened: what the output
held is gone. -/
theorem writeModule_of_surrogate {tree : Tree} {input output : String} {octets : List UInt8}
    {file : ServiceFile} {names : Tree.Names} (hread : tree.read input = .ok octets)
    (hload : loadFile input octets = .ok file) (hopens : tree.Opens output names)
    {support : List CodePoint} (hsupport : ∃ point ∈ support, point.isSurrogate) :
    ∃ fault, writeModule Tree.disk input output support tree =
      (.silent (.octets fault), tree.put names []) := by
  obtain ⟨point, hmem, hsurrogate⟩ := hsupport
  have htext : ∃ point ∈ file.modulePoints support, point.isSurrogate := by
    refine ⟨point, ?_, hsurrogate⟩
    simp [ServiceFile.modulePoints, modulePoints, hmem]
  obtain ⟨fault, hfault⟩ := exists_encodePoints_eq_error htext
  exact ⟨fault, writeModule_of_file hread hload (hopens.write_surrogates hfault)⟩

/-- The definition file is there and is loaded. -/
theorem exists_loadFile_import : ∃ file, loadFile "in" (encodeOctets "import a\n") = .ok file := by
  obtain ⟨file, hfile⟩ : ∃ file, ServiceFile.ofText "import a\n" = .ok file :=
    exists_eq_ok_of_isOk (by decide +kernel)
  refine ⟨file, loadFile_eq_ok_iff.mpr ⟨_, rfl, ?_⟩⟩
  rwa [unifyNewlines_eq_self (by decide), String.ofList_toList]

/-- The definition file can be read. -/
theorem read_import : importTree.read "in" = .ok (encodeOctets "import a\n") := by decide +kernel

/-- Options that name the definition file and the sink. -/
def sinkOptions : List GenOption := [.input "in", .output "/dev/null"]

/-- The arguments say these options, each in one word. -/
theorem writes_sink : GenOption.Writes sinkOptions ["-iin", "-o/dev/null"] :=
  .input (.oneWord (by decide) (by decide +kernel))
    (.output (.oneWord (by decide) (by decide +kernel)) .done)

end Interpose.Command
