import Interpose.Proofs.Command.Run
import Interpose.Proofs.Grammar.Viable
import Interpose.Proofs.Source.Context

/-!
# The caret of a diagnostic

The advice of a text that is no definition file is an excerpt of its line and a caret below. The
caret is indented for the excerpt as it stands in the advice, but the excerpt is printed behind an
indentation of its own. So the caret is always printed two columns to the left of the character
that it is for.
-/

namespace Interpose.Command

open Source Text

/-! ## Columns of the output -/

/-- The last two lines of a text that ends in a newline. -/
def lastLines? (text : String) : Option (List Char × List Char) :=
  match (splitLines text.toList).reverse with
  | [] :: below :: above :: _ => some (above, below)
  | _ => none

/-- The column at which the character of a line at a position is printed, when the part of the line
around that position is printed behind an indentation. -/
def printedColumn? (printed line : List Char) (position : Nat) : Option Nat :=
  let shown := shownPart line position
  let indentation := printed.length - shown.length
  if printed = List.replicate indentation ' ' ++ shown then
    some (indentation + min position contextSpan)
  else none

/-- What is printed ends in a line of the source and a caret below, which stands a number of columns
to the left of the character of the source at a position. -/
def CaretLeftOf (shift : Nat) (errors : String) (line : List Char) (position : Nat) : Prop :=
  ∃ above below column, lastLines? errors = some (above, below) ∧
    below.idxOf? '^' = some column ∧ printedColumn? above line position = some (column + shift)

/-- A printable character that means nothing to the printer of diagnostics. -/
def IsPlain (c : Char) : Prop := ' ' ≤ c ∧ c ≤ '~' ∧ c ≠ '[' ∧ c ≠ ']' ∧ c ≠ ':'

/-! ## Printing -/

/-- A text without brackets has no escapes. -/
theorem dropEscapes_eq_self {cs : List Char} (h : '[' ∉ cs) : dropEscapes cs = cs := by
  induction cs with
  | nil => rfl
  | cons c cs ih =>
    have hcs : '[' ∉ cs := fun hmem => h (List.mem_cons_of_mem _ hmem)
    have hhead : cs.head? ≠ some '[' := fun hsome => hcs (List.mem_of_head? hsome)
    rw [dropEscapes, if_neg fun hdrop => hhead hdrop.2.1, ih hcs]

/-- A line without tabs is not widened. -/
theorem widenTabs_eq_self {line : List Char} (h : '\t' ∉ line) : widenTabs line = line := by
  rw [widenTabs, List.splitOn_eq_singleton h, widenParts]

/-- A text without tabs and characters that are dropped is printed as it is. -/
theorem printedLines_eq_self {cs : List Char} (htab : '\t' ∉ cs)
    (hkept : ∀ c ∈ cs, isDropped c = false) : printedLines cs = cs := by
  have hfilter : cs.filter (fun c => !isDropped c) = cs := by
    apply List.filter_eq_self.mpr
    intro c hc
    rw [hkept c hc]
    rfl
  have hlines : (splitLines cs).map widenTabs = splitLines cs := by
    conv_rhs => rw [← List.map_id (splitLines cs)]
    apply List.map_congr_left
    intro line hline
    apply widenTabs_eq_self
    intro hmem
    apply htab
    rw [← joinLines_splitLines cs]
    exact (infix_joinLines_of_mem hline).subset hmem
  rw [printedLines, hfilter, hlines, joinLines_splitLines]

/-- A character of advice that means nothing to the printer. -/
private def IsUnmarked (c : Char) : Prop := IsPlain c ∨ c = '\n' ∨ c = ' ' ∨ c = '^'

/-- An unmarked character is shown as it is. -/
private theorem IsUnmarked.printed {c : Char} (h : IsUnmarked c) :
    c ≠ '[' ∧ c ≠ '\t' ∧ isDropped c = false := by
  rcases h with hplain | rfl | rfl | rfl
  · refine ⟨hplain.2.2.1, ?_, ?_⟩
    · rintro rfl
      exact absurd hplain.1 (by decide)
    · by_contra hdropped
      simp only [isDropped, Bool.not_eq_false, Bool.or_eq_true, decide_eq_true_eq] at hdropped
      rcases hdropped with (((rfl | rfl) | rfl) | rfl) | rfl <;> exact absurd hplain.1 (by decide)
  all_goals decide

/-- Advice of plain characters is printed behind two blanks. -/
theorem printed_advice {advice : List Char} (h : ∀ c ∈ advice, IsUnmarked c) :
    (printed ["  ", String.ofList advice]).toList = ' ' :: ' ' :: advice := by
  have hmarked : ∀ c ∈ ' ' :: ' ' :: advice, c ≠ '[' ∧ c ≠ '\t' ∧ isDropped c = false := by
    intro c hc
    apply IsUnmarked.printed
    simp only [List.mem_cons] at hc
    rcases hc with rfl | rfl | hc
    · exact .inr (.inr (.inl rfl))
    · exact .inr (.inr (.inl rfl))
    · exact h c hc
  have hescapes : dropEscapes advice = advice := by
    apply dropEscapes_eq_self
    intro hbracket
    exact (h '[' hbracket).printed.1 rfl
  have hblanks : dropEscapes "  ".toList = [' ', ' '] := by decide
  rw [printed, String.toList_ofList]
  simp only [List.flatMap_cons, List.flatMap_nil, List.append_nil, hblanks, String.toList_ofList,
    hescapes]
  apply printedLines_eq_self
  · intro htab
    exact (hmarked '\t' htab).2.1 rfl
  · intro c hc
    exact (hmarked c hc).2.2

/-! ## The caret -/

/-- The caret stands behind its blanks. -/
theorem idxOf?_caret (count : Nat) :
    (List.replicate count ' ' ++ ['^']).idxOf? '^' = some count := by
  induction count with
  | zero => rfl
  | succ count ih =>
    rw [List.replicate_succ, List.cons_append, List.idxOf?_cons, ih]
    rfl

/-- The last two lines that are printed of a plain excerpt. -/
theorem lastLines?_report {path : String} {span : Span} {shown : List Char} {count : Nat}
    (hplain : ∀ c ∈ shown, IsPlain c) :
    lastLines? (report path (Fault.malformed span
      (String.ofList (shown ++ '\n' :: List.replicate count ' ' ++ ['^']))).diagnostic) =
      some (' ' :: ' ' :: shown, List.replicate count ' ' ++ ['^']) := by
  have hadvice : ∀ c ∈ shown ++ '\n' :: List.replicate count ' ' ++ ['^'], IsUnmarked c := by
    intro c hc
    simp only [List.append_assoc, List.mem_append, List.cons_append, List.mem_cons,
      List.mem_replicate, List.not_mem_nil, or_false] at hc
    unfold IsUnmarked
    rcases hc with hc | rfl | ⟨_, rfl⟩ | rfl
    · exact .inl (hplain c hc)
    all_goals simp
  have hsource : '\n' ∉ ' ' :: ' ' :: shown := by
    intro hmem
    have hin : '\n' ∈ shown := by simpa using hmem
    exact absurd (hplain '\n' hin).1 (by decide)
  have hcaret : '\n' ∉ List.replicate count ' ' ++ ['^'] := by simp
  have hnonempty : (String.ofList
      (shown ++ '\n' :: List.replicate count ' ' ++ ['^'])).isEmpty = false := by
    rw [Bool.eq_false_iff]
    intro hempty
    simpa using congrArg String.toList (String.isEmpty_iff.mp hempty)
  have htwo : ∀ first second : String, (textOfLines [first, second]).toList =
      first.toList ++ '\n' :: (second.toList ++ ['\n']) := by
    intro first second
    simp [textOfLines, String.join]
  have herrors : report path (Fault.malformed span
      (String.ofList (shown ++ '\n' :: List.replicate count ' ' ++ ['^']))).diagnostic =
        textOfLines [printed [location path (some span), ": error: ",
          (Fault.malformed span "").message], printed ["  ", String.ofList
            (shown ++ '\n' :: List.replicate count ' ' ++ ['^'])]] := by
    simp only [report, Fault.diagnostic, Fault.help, hnonempty]
    rfl
  rw [lastLines?, herrors, htwo, printed_advice hadvice]
  have hlines : ∀ first : List Char, first ++ '\n' ::
      (' ' :: ' ' :: (shown ++ '\n' :: List.replicate count ' ' ++ ['^']) ++ ['\n']) =
        first ++ '\n' :: ((' ' :: ' ' :: shown) ++
          '\n' :: ((List.replicate count ' ' ++ ['^']) ++ ['\n'])) := by
    intro first
    simp
  rw [hlines, splitLines_append, splitLines_append, splitLines_append,
    splitLines_of_notMem hsource, splitLines_of_notMem hcaret]
  simp [splitLines]

/-- The caret below a plain excerpt is two columns to the left of the character that it is for. -/
theorem caretLeftOf_report {path : String} {span : Span} {front rest : List Char}
    (hplain : ∀ c ∈ shownPart (lastLine front ++ firstLine rest) (lastLine front).length, IsPlain c)
    (shift : Nat) :
    CaretLeftOf shift
      (report path (Fault.malformed span (context (front ++ rest) front.length)).diagnostic)
      (lastLine front ++ firstLine rest) (lastLine front).length ↔ shift = 2 := by
  have hcount : widenedLength 0 (contextBefore (front ++ rest) front.length) =
      min (lastLine front).length contextSpan := by
    rw [widenedLength_eq_length, contextBefore_append, List.length_drop]
    · omega
    · intro htab
      have hin : '\t' ∈ shownPart (lastLine front ++ firstLine rest) (lastLine front).length := by
        rw [← contextBefore_append_contextAfter]
        exact List.mem_append_left _ htab
      exact absurd (hplain '\t' hin).1 (by decide)
  have hlines := @lastLines?_report path span _ (min (lastLine front).length contextSpan) hplain
  have hcolumn : printedColumn? (' ' :: ' ' :: shownPart (lastLine front ++ firstLine rest)
      (lastLine front).length) (lastLine front ++ firstLine rest) (lastLine front).length =
        some (2 + min (lastLine front).length contextSpan) := by
    have hlength : ∀ shown : List Char, (' ' :: ' ' :: shown).length - shown.length = 2 := by
      intro shown
      rw [List.length_cons, List.length_cons]
      omega
    simp only [printedColumn?, hlength]
    exact if_pos rfl
  have hcontext : context (front ++ rest) front.length = String.ofList
      (shownPart (lastLine front ++ firstLine rest) (lastLine front).length ++
        '\n' :: List.replicate (min (lastLine front).length contextSpan) ' ' ++ ['^']) := by
    simp only [context, contextBefore_append_contextAfter, hcount]
  rw [hcontext]
  constructor
  · rintro ⟨above, below, column, hlast, hcaret, hsource⟩
    obtain ⟨rfl, rfl⟩ := Prod.mk.inj (Option.some.inj (hlines.symm.trans hlast))
    rw [idxOf?_caret] at hcaret
    rw [hcolumn, ← Option.some.inj hcaret] at hsource
    have hequal := Option.some.inj hsource
    rw [Nat.add_comm 2] at hequal
    exact (Nat.add_left_cancel hequal).symm
  · rintro rfl
    exact ⟨_, _, _, hlines, idxOf?_caret _, by rw [hcolumn, Nat.add_comm]⟩

/-- A definition file that is refused for its form is reported by the commands that read it. -/
theorem run_of_refused {command : Command} (hcommand : command ≠ .runtime)
    {arguments : List String} {invocation : Invocation} (hruns : command.Runs arguments invocation)
    {path : String} (hpath : invocation.value? inputOption = some path)
    {tree : Tree} {octets : List UInt8} (hread : tree.read path = .ok octets)
    {cs : List Char} (hdecode : decodeOctets octets = .ok cs)
    {fault : Fault} (hparse : parse (String.ofList (unifyNewlines cs)) = .error fault)
    (columns : Nat) :
    Command.run Tree.disk columns (command.name :: arguments) tree = (.fault path fault, tree) := by
  obtain ⟨next, hact⟩ := exists_withFile_of_act hcommand columns invocation
  have hfile : ServiceFile.ofText (String.ofList (unifyNewlines cs)) = .error fault := by
    apply bind_eq_error_iff.mpr
    exact .inl hparse
  have hload : loadFile path octets = .error (.fault path fault) := by
    simp only [loadFile, hdecode, hfile]
  rw [hruns.run, hact, hpath, Option.getD_some]
  exact withFile_of_refused hread hload

/-- A text that is no definition file is refused at a character of one of its lines. When the part
of the line around the character is plain, the caret is printed two columns to the left of it. -/
theorem caretLeftOf_iff {command : Command} (hcommand : command ≠ .runtime)
    {arguments : List String} {invocation : Invocation} (hruns : command.Runs arguments invocation)
    {path : String} (hpath : invocation.value? inputOption = some path)
    {tree : Tree} {octets : List UInt8} (hread : tree.read path = .ok octets)
    {cs : List Char} (hdecode : decodeOctets octets = .ok cs) {span : Span} {help : String}
    (hparse : parse (String.ofList (unifyNewlines cs)) = .error (.malformed span help))
    (columns : Nat) :
    ∃ report source position c above,
      Command.run Tree.disk columns (command.name :: arguments) tree = (report, tree) ∧
      span = ⟨some ((above + 1 : Nat) : Int), some ((position + 1 : Nat) : Int)⟩ ∧
      (splitLines (unifyNewlines cs))[above]? = some source ∧ source[position]? = some c ∧
      ((∀ d ∈ shownPart source position, IsPlain d) →
        ∀ shift, CaretLeftOf shift report.errors source position ↔ shift = 2) := by
  obtain ⟨front, c, rest, htext, hc, rfl, rfl⟩ := exists_refused_of_parse hparse
  rw [String.toList_ofList] at htext
  have hfirst : firstLine (c :: rest) = c :: firstLine rest := by simp [firstLine, hc]
  refine ⟨_, lastLine front ++ firstLine (c :: rest), (lastLine front).length, c, front.count '\n',
    run_of_refused hcommand hruns hpath hread hdecode hparse columns, ?_, ?_, ?_, ?_⟩
  · rw [Span.ofPlace, column_after, Place.line_after, Place.start, Nat.add_comm 1]
  · rw [htext, getElem?_splitLines]
  · rw [hfirst, List.getElem?_append_right (Nat.le_refl _), Nat.sub_self]
    rfl
  · intro hplain shift
    rw [String.toList_ofList, htext, Report.errors_fault]
    exact caretLeftOf_report hplain shift

/-! ## A sign after a keyword -/

/-- What stands before the sign at which a text is refused. -/
def signFront : List Char := ['i', 'm', 'p', 'o', 'r', 't', ' ']

/-- A text that is refused at the sign after its keyword. -/
def signText : String := String.ofList (signFront ++ ['!'])

/-- A tree with the text in a file. -/
def signTree : Tree := .ofFiles [(["in"], encodeOctets signText)]

/-- The command line that asks for the services of the file. -/
def signInvocation : Invocation := ⟨[⟨inputOption, some "in"⟩], []⟩

/-- The command reads the file in which a sign stands. -/
theorem runs_sign : Command.info.Runs ["-i", "in"] signInvocation :=
  ⟨by decide +kernel, by decide +kernel, by decide +kernel⟩

/-- The file holds the text with the sign. -/
theorem read_sign : signTree.read "in" = .ok (encodeOctets signText) := by decide +kernel

/-- The octets of the text are decoded. -/
theorem decodeOctets_sign : decodeOctets (encodeOctets signText) = .ok signText.toList := by
  decide +kernel

/-- The text is refused at its sign. -/
theorem parse_sign : parse (String.ofList (unifyNewlines signText.toList)) =
    .error (.malformed ⟨some 1, some 8⟩ (context signText.toList signFront.length)) := by
  decide +kernel

/-- The line of the sign is plain. -/
theorem isPlain_sign : ∀ c ∈ shownPart signText.toList signFront.length, IsPlain c := by
  have hshown : shownPart signText.toList signFront.length = signFront ++ ['!'] := by decide
  rw [hshown]
  intro c hc
  simp only [signFront, List.cons_append, List.nil_append, List.mem_cons, List.not_mem_nil,
    or_false] at hc
  unfold IsPlain
  rcases hc with rfl | rfl | rfl | rfl | rfl | rfl | rfl | rfl <;> decide

/-- The caret is printed two columns to the left of the sign. -/
theorem caretLeftOf_sign :
    parse (String.ofList (unifyNewlines signText.toList)) =
      .error (.malformed ⟨some 1, some 8⟩ (context signText.toList signFront.length)) ∧
    ∃ report, Command.run Tree.disk 80 ["info", "-i", "in"] signTree = (report, signTree) ∧
      CaretLeftOf 2 report.errors signText.toList 7 := by
  obtain ⟨report, line, position, c, above, hrun, hspan, hline, _, hcaret⟩ :=
    caretLeftOf_iff (by decide) runs_sign rfl read_sign decodeOctets_sign parse_sign 80
  obtain ⟨rfl, rfl⟩ : above = 0 ∧ position = 7 := by
    simp only [Span.mk.injEq, Option.some.injEq] at hspan
    omega
  obtain rfl : signText.toList = line := by
    have hlines : (splitLines (unifyNewlines signText.toList))[0]? = some signText.toList := by
      decide
    exact Option.some.inj (hlines.symm.trans hline)
  exact ⟨parse_sign, report, hrun, (hcaret isPlain_sign 2).mpr rfl⟩

/-- The caret is not printed below the sign, although nothing but plain characters is printed. -/
theorem not_caretLeftOf_zero :
    parse (String.ofList (unifyNewlines signText.toList)) =
      .error (.malformed ⟨some 1, some 8⟩ (context signText.toList signFront.length)) ∧
    (∀ c ∈ shownPart signText.toList 7, IsPlain c) ∧
    ∃ report, Command.run Tree.disk 80 ["info", "-i", "in"] signTree = (report, signTree) ∧
      ¬ CaretLeftOf 0 report.errors signText.toList 7 := by
  have hrun := run_of_refused (by decide) runs_sign rfl read_sign decodeOctets_sign parse_sign 80
  have htext : signText.toList = signFront ++ ['!'] := rfl
  have hlast : lastLine signFront = signFront := by decide
  have hline : lastLine signFront ++ firstLine ['!'] = signText.toList := by decide
  refine ⟨parse_sign, isPlain_sign, _, hrun, ?_⟩
  have hplain : ∀ c ∈ shownPart (lastLine signFront ++ firstLine ['!']) (lastLine signFront).length,
      IsPlain c := by
    rw [hline, hlast]
    exact isPlain_sign
  have hcaret := @caretLeftOf_report "in" ⟨some 1, some 8⟩ signFront ['!'] hplain 0
  rw [hline, hlast, ← htext] at hcaret
  intro hbelow
  exact absurd (hcaret.mp hbelow) (by decide)

end Interpose.Command
