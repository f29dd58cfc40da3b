import Interpose.Command.Arguments
import Mathlib.Data.List.TakeWhile

/-!
# Arguments are read as they are written

An option is written as its long or short name before its value, with an equals sign between its
long name and its value, with its value right after its letter, or alone if its value may be left
out. Options that are written so one after the other are read in their order.
-/

namespace Interpose.Command

/-- Whether an option takes a text for its value. One whose value may be left out takes no text
that looks like an option. -/
def Takes.Accepts : Takes → String → Prop
  | .nothing, _ => False
  | .text, _ => True
  | .optional _, value => namesOption value = false

/-- Options as arguments. -/
inductive Spelled (options : List Opt) : List Given → List String → Prop where
  /-- Nothing is left. -/
  | done : Spelled options [] []
  /-- Two dashes end the options. -/
  | dashes : Spelled options [] ["--"]
  /-- A switch stands alone. -/
  | switch {option : Opt} {given : List Given} {arguments : List String} (h : option ∈ options)
    (htakes : option.takes = .nothing) (rest : Spelled options given arguments) :
    Spelled options (⟨option, none⟩ :: given) (option.long :: arguments)
  /-- A name stands before its value. -/
  | next {option : Opt} {name value : String} {given : List Given} {arguments : List String}
    (h : option ∈ options) (hname : name ∈ option.names) (htakes : option.takes.Accepts value)
    (rest : Spelled options given arguments) :
    Spelled options (⟨option, some value⟩ :: given) (name :: value :: arguments)
  /-- An equals sign stands between a long name and its value. -/
  | attached {option : Opt} {value : String} {given : List Given} {arguments : List String}
    (h : option ∈ options) (htakes : option.takes.Accepts value)
    (rest : Spelled options given arguments) :
    Spelled options (⟨option, some value⟩ :: given) ((option.long ++ "=" ++ value) :: arguments)
  /-- A value follows its letter. -/
  | letter {option : Opt} {letter : Char} {value : String} {given : List Given}
    {arguments : List String} (h : option ∈ options) (hshort : option.short = some letter)
    (hvalue : value ≠ "") (htakes : option.takes.Accepts value)
    (rest : Spelled options given arguments) :
    Spelled options (⟨option, some value⟩ :: given) ((shortName letter ++ value) :: arguments)
  /-- A name stands without its value. -/
  | bare {option : Opt} {name value : String} {given : List Given} {arguments : List String}
    (h : option ∈ options) (hname : name ∈ option.names) (htakes : option.takes = .optional value)
    (rest : Spelled options given arguments) :
    Spelled options (⟨option, some value⟩ :: given) (name :: arguments)

/-- Options that their names tell apart. -/
structure Distinct (options : List Opt) : Prop where
  /-- A long name begins with two dashes, is longer, and has no equals sign. -/
  long : ∀ option ∈ options, option.long.toList.take 2 = ['-', '-'] ∧
    2 < option.long.toList.length ∧ '=' ∉ option.long.toList
  /-- No letter is a dash or an equals sign. -/
  short : ∀ option ∈ options, option.short ≠ some '-' ∧ option.short ≠ some '='
  /-- An option is found by its long name. -/
  find_long : ∀ option ∈ options,
    (options.find? fun other => other.long = option.long) = some option
  /-- An option is found by its letter. -/
  find_short : ∀ option ∈ options, option.short.isSome = true →
    (options.find? fun other => other.short = option.short) = some option

/-- The options of a command have names of their own. -/
theorem distinct_options (command : Command) : Distinct command.options := by
  cases command <;>
    exact ⟨by decide +kernel, by decide +kernel, by decide +kernel, by decide +kernel⟩

section

variable {options : List Opt} {option : Opt} (hoptions : Distinct options) (h : option ∈ options)

include hoptions h

/-- A long name begins with two dashes and a third character. -/
theorem Distinct.exists_long : ∃ c cs, option.long.toList = '-' :: '-' :: c :: cs := by
  obtain ⟨htake, hlength, -⟩ := hoptions.long option h
  generalize option.long.toList = cs at htake hlength
  rcases cs with - | ⟨a, - | ⟨b, - | ⟨c, cs⟩⟩⟩
  · cases htake
  · cases htake
  · simp at hlength
  · simp only [List.take, List.cons.injEq, and_true] at htake
    exact ⟨c, cs, by rw [htake.1, htake.2]⟩

/-- A long name is read with the value after it. -/
theorem Distinct.readOptions_long (rest : List String) :
    readOptions options option.long rest =
      (takeValue option option.long none rest).map fun (value, rest) =>
        ([⟨option, value⟩], rest) := by
  have hsplit : splitAttached option.long = (option.long, none) := by
    have hdrop : option.long.toList.dropWhile (· ≠ '=') = [] := by
      rw [List.dropWhile_eq_nil_iff]
      intro c hc
      simp only [decide_eq_true_eq]
      rintro rfl
      exact (hoptions.long option h).2.2 hc
    simp only [splitAttached, hdrop]
  rw [readOptions, hsplit]
  simp only [hoptions.find_long option h]

/-- A long name is read with the value that is attached to it. -/
theorem Distinct.readOptions_attached (value : String) (rest : List String) :
    readOptions options (option.long ++ "=" ++ value) rest =
      (takeValue option option.long (some value) rest).map fun (value, rest) =>
        ([⟨option, value⟩], rest) := by
  have hplain : ∀ c ∈ option.long.toList, decide (c ≠ '=') = true := by
    intro c hc
    simp only [decide_eq_true_eq]
    rintro rfl
    exact (hoptions.long option h).2.2 hc
  have hsplit : splitAttached (option.long ++ "=" ++ value) = (option.long, some value) := by
    have hcs : (option.long ++ "=" ++ value).toList =
        option.long.toList ++ '=' :: value.toList := by
      simp [String.toList_append]
    simp only [splitAttached, hcs]
    rw [List.dropWhile_append_of_pos hplain, List.takeWhile_append_of_pos hplain]
    simp
  rw [readOptions, hsplit]
  simp only [hoptions.find_long option h]

/-- A letter is no dash and no equals sign. -/
theorem Distinct.letter_ne {letter : Char} (hshort : option.short = some letter) :
    letter ≠ '-' ∧ letter ≠ '=' := by
  have hnot := hoptions.short option h
  rw [hshort] at hnot
  exact ⟨fun hdash => hnot.1 (congrArg some hdash), fun hequals => hnot.2 (congrArg some hequals)⟩

/-- A letter is read with the value that is attached to it or stands after it. -/
theorem Distinct.readOptions_short {letter : Char} (hshort : option.short = some letter)
    (htakes : option.takes ≠ .nothing) (value : String) (rest : List String) :
    readOptions options (shortName letter ++ value) rest =
      (takeValue option (shortName letter) (if value = "" then none else some value) rest).map
        fun (value, rest) => ([⟨option, value⟩], rest) := by
  obtain ⟨hdash, hequals⟩ := hoptions.letter_ne h hshort
  have hletter := hoptions.find_short option h (by rw [hshort, Option.isSome_some])
  rw [hshort] at hletter
  have hcs : (shortName letter ++ value).toList = '-' :: letter :: value.toList := by
    simp [shortName, String.toList_append]
  have hname : ∃ more, (splitAttached (shortName letter ++ value)).1.toList =
      '-' :: letter :: more := by
    have hfirst : decide ('-' ≠ '=') = true ∧ decide (letter ≠ '=') = true := by simpa using hequals
    simp only [splitAttached, hcs]
    split
    · exact ⟨value.toList, hcs⟩
    · refine ⟨value.toList.takeWhile (· ≠ '='), ?_⟩
      rw [String.toList_ofList, List.takeWhile_cons, if_pos hfirst.1, List.takeWhile_cons,
        if_pos hfirst.2]
  have hfind : (options.find? fun other =>
      other.long = (splitAttached (shortName letter ++ value)).1) = none := by
    rw [List.find?_eq_none]
    intro other hother
    obtain ⟨c, cs, hlong⟩ := hoptions.exists_long hother
    obtain ⟨more, hmore⟩ := hname
    simp only [decide_eq_true_eq]
    intro heq
    rw [← heq, hlong] at hmore
    exact hdash (List.cons.inj (List.cons.inj hmore).2).1.symm
  rw [readOptions]
  simp only [hfind, hcs]
  split
  · rename_i heq
    exact absurd (List.cons.inj (List.cons.inj heq).2).1 hdash
  · rename_i heq
    obtain ⟨-, rfl⟩ := List.cons.inj heq
    rw [readLetters]
    simp only [hletter, if_neg htakes]
    by_cases hvalue : value = ""
    · simp [hvalue]
    · have hletters : value.toList.isEmpty = false := by
        rw [List.isEmpty_eq_false_iff]
        exact fun hnil => hvalue (String.toList_eq_nil_iff.mp hnil)
      simp [hvalue, hletters]
  · rename_i heq
    cases heq

end

/-- An argument that names an option is read before the others. -/
theorem readFrom_cons {options : List Opt} {argument : String} {rest after : List String}
    {first : Given} {given : List Given} {fuel : Nat}
    (hargument : namesOption argument = true ∧ argument ≠ "--")
    (hread : readOptions options argument rest = .ok ([first], after))
    (hafter : after.length ≤ rest.length) (hfuel : (argument :: rest).length ≤ fuel)
    (hrest : ∀ {fuel : Nat}, after.length ≤ fuel →
      readFrom options true fuel after = .ok ⟨given, []⟩) :
    readFrom options true fuel (argument :: rest) = .ok ⟨first :: given, []⟩ := by
  cases fuel with
  | zero => simp at hfuel
  | succ fuel =>
    have hmore := @hrest fuel (hafter.trans (Nat.le_of_succ_le_succ hfuel))
    rw [readFrom, if_neg hargument.2, if_pos hargument.1]
    simp only [hread, hmore]
    rfl

/-- A text whose first two characters are a dash and another one names options. -/
theorem namesOption_of_toList {argument : String} {c : Char} {cs : List Char}
    (h : argument.toList = '-' :: c :: cs) : namesOption argument = true := by
  rw [namesOption, h]
  rfl

/-- The names of an option are its letter after a dash, and its long name. -/
theorem Opt.mem_names_iff {option : Opt} {name : String} :
    name ∈ option.names ↔
      (∃ letter, option.short = some letter ∧ name = shortName letter) ∨ name = option.long := by
  rw [Opt.names]
  cases option.short with
  | none => simp
  | some letter => simp

/-- A switch takes no text. -/
theorem Takes.Accepts.ne_nothing {takes : Takes} {value : String} (h : takes.Accepts value) :
    takes ≠ .nothing := by
  rintro rfl
  exact h

/-- A value that an option takes is taken, attached to its name or after it. -/
theorem takeValue_of_accepts {option : Opt} {value : String} (htakes : option.takes.Accepts value)
    (name : String) (rest : List String) :
    takeValue option name (some value) rest = .ok (some value, rest) ∧
      takeValue option name none (value :: rest) = .ok (some value, rest) := by
  cases ht : option.takes with
  | nothing => simp [ht, Takes.Accepts] at htakes
  | text => simp only [takeValue, ht, and_self]
  | optional bare =>
    rw [ht] at htakes
    have hvalue : namesOption value = false := htakes
    simp [takeValue, ht, hvalue]

section

variable {options : List Opt} (hoptions : Distinct options)

include hoptions

/-- A name of an option is no value and not the end of the options. -/
theorem Distinct.name_argument {option : Opt} (h : option ∈ options) {name : String}
    (hname : name ∈ option.names) : namesOption name = true ∧ name ≠ "--" := by
  obtain ⟨letter, hshort, rfl⟩ | rfl := Opt.mem_names_iff.mp hname
  · have hcs : (shortName letter).toList = ['-', letter] := by simp [shortName]
    refine ⟨namesOption_of_toList hcs, ?_⟩
    rintro heq
    rw [heq] at hcs
    have hletter : '-' = letter := (List.cons.inj (List.cons.inj hcs).2).1
    exact (hoptions.letter_ne h hshort).1 hletter.symm
  · obtain ⟨c, cs, hcs⟩ := hoptions.exists_long h
    refine ⟨namesOption_of_toList hcs, ?_⟩
    rintro heq
    rw [heq] at hcs
    cases (List.cons.inj (List.cons.inj hcs).2).2

/-- A name of an option is read with the value after it. -/
theorem Distinct.readOptions_name {option : Opt} (h : option ∈ options) {name : String}
    (hname : name ∈ option.names) (htakes : option.takes ≠ .nothing) (rest : List String) :
    readOptions options name rest =
      (takeValue option name none rest).map fun (value, rest) => ([⟨option, value⟩], rest) := by
  obtain ⟨letter, hshort, rfl⟩ | rfl := Opt.mem_names_iff.mp hname
  · have hread := hoptions.readOptions_short h hshort htakes "" rest
    rwa [String.append_empty, if_pos rfl] at hread
  · exact hoptions.readOptions_long h rest

/-- An argument that attaches a value to a name of an option is not the end of the options. -/
theorem Distinct.attached_argument {option : Opt} (h : option ∈ options) (value : String) :
    namesOption (option.long ++ "=" ++ value) = true ∧ option.long ++ "=" ++ value ≠ "--" := by
  obtain ⟨c, cs, hlong⟩ := hoptions.exists_long h
  have hcs : (option.long ++ "=" ++ value).toList =
      '-' :: '-' :: (c :: cs ++ '=' :: value.toList) := by
    simp [String.toList_append, hlong]
  refine ⟨namesOption_of_toList hcs, ?_⟩
  intro heq
  rw [heq] at hcs
  cases (List.cons.inj (List.cons.inj hcs).2).2

/-- An argument that attaches a value to a letter is not the end of the options. -/
theorem Distinct.letter_argument {option : Opt} (h : option ∈ options) {letter : Char}
    (hshort : option.short = some letter) (value : String) :
    namesOption (shortName letter ++ value) = true ∧ shortName letter ++ value ≠ "--" := by
  have hcs : (shortName letter ++ value).toList = '-' :: letter :: value.toList := by
    simp [shortName, String.toList_append]
  refine ⟨namesOption_of_toList hcs, ?_⟩
  intro heq
  rw [heq] at hcs
  have hletter : '-' = letter := (List.cons.inj (List.cons.inj hcs).2).1
  exact (hoptions.letter_ne h hshort).1 hletter.symm

/-- The first of the written options looks like one. -/
theorem Spelled.namesOption_head {given : List Given} {argument : String} {rest : List String}
    (h : Spelled options given (argument :: rest)) : namesOption argument = true := by
  cases h with
  | dashes => decide
  | switch h _ _ => exact (hoptions.name_argument h (Opt.mem_names_iff.mpr (.inr rfl))).1
  | next h hname _ _ => exact (hoptions.name_argument h hname).1
  | attached h _ _ => exact (hoptions.attached_argument h _).1
  | letter h hshort _ _ _ => exact (hoptions.letter_argument h hshort _).1
  | bare h hname _ _ => exact (hoptions.name_argument h hname).1

/-- A value that is left out is replaced, as no value follows. -/
theorem Spelled.takeValue_bare {option : Opt} {bare : String} {given : List Given}
    {arguments : List String} (htakes : option.takes = .optional bare)
    (h : Spelled options given arguments) (name : String) :
    takeValue option name none arguments = .ok (some bare, arguments) := by
  cases arguments with
  | nil => simp only [takeValue, htakes]
  | cons argument rest =>
    have hnames := h.namesOption_head hoptions
    simp [takeValue, htakes, hnames]

/-- Options that are written one after the other are read in their order. -/
theorem Spelled.readFrom {given : List Given} {arguments : List String}
    (h : Spelled options given arguments) {fuel : Nat} (hfuel : arguments.length ≤ fuel) :
    Command.readFrom options true fuel arguments = .ok ⟨given, []⟩ := by
  induction h generalizing fuel with
  | done => cases fuel <;> rfl
  | dashes =>
    obtain ⟨fuel, rfl⟩ := Nat.exists_eq_add_of_le' hfuel
    rfl
  | @switch option _ arguments h htakes rest ih =>
    have hname := hoptions.name_argument h (Opt.mem_names_iff.mpr (.inr rfl))
    refine readFrom_cons hname ?_ (Nat.le_refl arguments.length) hfuel ih
    rw [hoptions.readOptions_long h]
    simp only [takeValue, htakes]
    rfl
  | @next option name value _ arguments h hname htakes rest ih =>
    refine readFrom_cons (hoptions.name_argument h hname) ?_ (Nat.le_succ arguments.length) hfuel ih
    rw [hoptions.readOptions_name h hname htakes.ne_nothing,
      (takeValue_of_accepts htakes name arguments).2]
    rfl
  | @attached option value _ arguments h htakes rest ih =>
    refine readFrom_cons (hoptions.attached_argument h value) ?_ (Nat.le_refl arguments.length)
      hfuel ih
    rw [hoptions.readOptions_attached h, (takeValue_of_accepts htakes _ arguments).1]
    rfl
  | @letter option letter value _ arguments h hshort hvalue htakes rest ih =>
    refine readFrom_cons (hoptions.letter_argument h hshort value) ?_
      (Nat.le_refl arguments.length) hfuel ih
    rw [hoptions.readOptions_short h hshort htakes.ne_nothing, if_neg hvalue,
      (takeValue_of_accepts htakes _ arguments).1]
    rfl
  | @bare option name value _ arguments h hname htakes rest ih =>
    have htaken : option.takes ≠ .nothing := by
      rw [htakes]
      exact nofun
    refine readFrom_cons (hoptions.name_argument h hname) ?_ (Nat.le_refl arguments.length) hfuel ih
    rw [hoptions.readOptions_name h hname htaken, rest.takeValue_bare hoptions htakes name]
    rfl

/-- All arguments of written options are read. -/
theorem Spelled.readArguments {given : List Given} {arguments : List String}
    (h : Spelled options given arguments) :
    Command.readArguments options true arguments = .ok ⟨given, []⟩ :=
  h.readFrom hoptions (Nat.le_add_left arguments.length (String.join arguments).length)

end

end Interpose.Command
