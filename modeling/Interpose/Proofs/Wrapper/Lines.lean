import Interpose.Proofs.Text.Margin
import Interpose.Proofs.Wrapper.Names
import Interpose.Wrapper.Text

/-!
# The lines of generated texts

A text without newlines is a single line, and a text that is written line by line is cut into these
lines again. The lines of an indented body are blank as far as its margin reaches.
-/

namespace Interpose.Text

/-! ## Single lines -/

/-- A text that holds no newline. -/
def OneLine (text : String) : Prop := '\n' ∉ text.toList

instance (text : String) : Decidable (OneLine text) :=
  inferInstanceAs (Decidable ('\n' ∉ text.toList))

@[simp] theorem oneLine_append {a b : String} : OneLine (a ++ b) ↔ OneLine a ∧ OneLine b := by
  simp [OneLine]

/-- A number is written on one line. -/
theorem oneLine_toString (n : Nat) : OneLine (toString n) := by
  intro h
  exact absurd (isDigit_of_mem_toString h) (by decide)

/-- Texts on one line are joined on one line. -/
theorem oneLine_intercalate {separator : String} {texts : List String} (hsep : OneLine separator)
    (h : ∀ text ∈ texts, OneLine text) : OneLine (separator.intercalate texts) := by
  induction texts with
  | nil => simp [OneLine]
  | cons first texts ih =>
    obtain ⟨hfirst, hrest⟩ := List.forall_mem_cons.mp h
    cases texts with
    | nil => simpa [OneLine] using hfirst
    | cons next texts =>
      rw [String.intercalate_cons_cons, oneLine_append, oneLine_append]
      exact ⟨⟨hfirst, hsep⟩, ih hrest⟩

/-! ## The lines of a text -/

/-- The lines of a text, cut at its newlines. -/
def linesOf (text : String) : List String := (splitLines text.toList).map String.ofList

/-- A text on one line is its only line. -/
theorem linesOf_of_oneLine {text : String} (h : OneLine text) : linesOf text = [text] := by
  rw [linesOf, splitLines_of_notMem h, List.map_singleton, String.ofList_toList]

/-- A newline ends a line. -/
theorem linesOf_append (a b : String) : linesOf (a ++ "\n" ++ b) = linesOf a ++ linesOf b := by
  have htext : (a ++ "\n" ++ b).toList = a.toList ++ '\n' :: b.toList := by simp
  rw [linesOf, htext, splitLines_append, List.map_append, ← linesOf, ← linesOf]

/-- What is written line by line consists of the lines of its parts and an empty one. -/
theorem linesOf_textOfLines (lines : List String) :
    linesOf (textOfLines lines) = lines.flatMap linesOf ++ [""] := by
  induction lines with
  | nil => rfl
  | cons line lines ih =>
    have htext : textOfLines (line :: lines) = line ++ "\n" ++ textOfLines lines := by
      simp [textOfLines]
    rw [htext, linesOf_append, ih, List.flatMap_cons, List.append_assoc]

/-- Lines are written one after the other. -/
theorem textOfLines_append (lines others : List String) :
    textOfLines (lines ++ others) = textOfLines lines ++ textOfLines others := by
  simp [textOfLines]

/-- Lines without line ends are cut as they are. -/
theorem flatMap_linesOf {lines : List String} (h : ∀ line ∈ lines, OneLine line) :
    lines.flatMap linesOf = lines := by
  induction lines with
  | nil => rfl
  | cons line lines ih =>
    obtain ⟨hline, hrest⟩ := List.forall_mem_cons.mp h
    rw [List.flatMap_cons, linesOf_of_oneLine hline, ih hrest, List.singleton_append]

/-! ## Indented bodies -/

/-- A line whose first eight characters are blank, as many as a margin has. -/
def Shallow (line : List Char) : Prop := isBlankLine (line.take 8) = true

/-- A blank line is shallow. -/
theorem shallow_of_blank {line : List Char} (h : isBlankLine line = true) : Shallow line := by
  rw [Shallow, isBlankLine, List.all_eq_true]
  intro c hc
  exact List.all_eq_true.mp h c (List.mem_of_mem_take hc)

/-- A line behind the margin of a body is shallow. -/
theorem shallow_margin_append (line : List Char) : Shallow (bodyMargin ++ line) := by
  have htake : (bodyMargin ++ line).take 8 = bodyMargin := List.take_left' rfl
  rw [Shallow, htake]
  decide

/-- A shallow line stays shallow behind blanks. -/
theorem Shallow.blank_append {front line : List Char} (h : Shallow line)
    (hfront : isBlankLine front = true) : Shallow (front ++ line) := by
  rw [Shallow, List.take_append, isBlankLine_append, Bool.and_eq_true]
  refine ⟨shallow_of_blank hfront, ?_⟩
  rw [isBlankLine, List.all_eq_true]
  intro c hc
  have hmem : c ∈ line.take 8 := (List.take_sublist_take_left (by omega)).subset hc
  exact List.all_eq_true.mp h c hmem

/-- A shallow line stays shallow behind a part that is moved. -/
private theorem shallow_shifted_append {part line : List Char} (h : Shallow line) :
    Shallow (shifted bodyMargin part ++ line) := by
  by_cases hblank : isBlankLine part = true
  · rw [shifted, if_pos hblank]
    exact h.blank_append hblank
  · rw [shifted, if_neg hblank, List.append_assoc]
    exact shallow_margin_append _

/-- An indented text is blank as far as a margin reaches. -/
theorem shallow_addMargin (cs : List Char) : Shallow (addMargin bodyMargin cs) := by
  have hparts : ∀ parts : List (List Char),
      Shallow (parts.map (shifted bodyMargin)).flatten := by
    intro parts
    induction parts with
    | nil => exact shallow_of_blank rfl
    | cons part parts ih =>
      rw [List.map_cons, List.flatten_cons]
      exact shallow_shifted_append ih
  exact hparts (pieces cs)

/-- Every line of an indented body is blank as far as a margin reaches. -/
theorem shallow_of_mem_linesOf {body line : String} (h : line ∈ linesOf (indentedBody body)) :
    Shallow line.toList := by
  unfold indentedBody at h
  split at h
  · have hone : OneLine (String.ofList bodyMargin ++ "pass") := by decide
    rw [linesOf_of_oneLine hone, List.mem_singleton] at h
    rw [h]
    rfl
  · obtain ⟨chars, hmem, rfl⟩ := List.mem_map.mp h
    rw [String.toList_ofList, splitLines_addMargin (by decide)] at hmem
    obtain ⟨raw, _, rfl⟩ := List.mem_map.mp hmem
    rw [String.toList_ofList]
    exact shallow_addMargin raw

end Interpose.Text

namespace Interpose

open Text

/-- A module whose support package is named by a string is a string. -/
theorem modulePoints_points (support : String) (imports : List Import) (services : List Service) :
    modulePoints (points support) imports services =
      points (moduleText support imports services) := by
  have hheader : textOfLines ["from " ++ support ++ " import Result as _Result",
      "from " ++ support ++ " import into_status as _into_status"] =
        "from " ++ support ++ " import Result as _Result\nfrom " ++ support ++
          " import into_status as _into_status\n" := by
    rw [← String.toList_inj]
    simp [textOfLines]
  rw [moduleText, textOfLines_append, headerLines, textOfLines_append, hheader, modulePoints]
  simp only [points_append, List.append_assoc]

end Interpose
