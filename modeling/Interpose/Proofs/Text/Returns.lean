import Interpose.Proofs.Text.Lines

/-!
# Carriage returns before newlines

A text that is kept with two characters at the end of each line has a carriage return before every
newline. The lines of such a text end in a carriage return, which is a blank, so without the blanks
at their ends they are the same lines.
-/

namespace Interpose.Text

/-- A text with a carriage return before each newline. -/
def addReturns : List Char → List Char
  | [] => []
  | c :: cs => if c = '\n' then '\r' :: '\n' :: addReturns cs else c :: addReturns cs

/-- A text with a carriage return before each newline. -/
def withReturns (text : String) : String := String.ofList (addReturns text.toList)

@[simp] theorem addReturns_nil : addReturns [] = [] := rfl

@[simp] theorem addReturns_newline (cs : List Char) :
    addReturns ('\n' :: cs) = '\r' :: '\n' :: addReturns cs := rfl

theorem addReturns_cons {c : Char} (hc : c ≠ '\n') (cs : List Char) :
    addReturns (c :: cs) = c :: addReturns cs := if_neg hc

@[simp] theorem toList_withReturns (text : String) :
    (withReturns text).toList = addReturns text.toList := String.toList_ofList

@[simp] theorem addReturns_append (cs ds : List Char) :
    addReturns (cs ++ ds) = addReturns cs ++ addReturns ds := by
  induction cs with
  | nil => rfl
  | cons c cs ih =>
    by_cases hc : c = '\n'
    · rw [hc, List.cons_append, addReturns_newline, addReturns_newline, ih]
      rfl
    · rw [List.cons_append, addReturns_cons hc, addReturns_cons hc, ih]
      rfl

@[simp] theorem addReturns_eq_nil_iff {cs : List Char} : addReturns cs = [] ↔ cs = [] := by
  cases cs with
  | nil => simp
  | cons c cs =>
    by_cases hc : c = '\n'
    · simp [hc]
    · simp [addReturns_cons hc]

/-- A text begins with anything but a carriage return if it did so before. -/
theorem exists_cons_of_addReturns {c : Char} {cs ds : List Char} (hc : c ≠ '\r')
    (h : addReturns cs = c :: ds) : ∃ rest, cs = c :: rest ∧ addReturns rest = ds := by
  cases cs with
  | nil => simp at h
  | cons d cs =>
    by_cases hd : d = '\n'
    · rw [hd, addReturns_newline, List.cons_eq_cons] at h
      exact absurd h.1.symm hc
    · rw [addReturns_cons hd, List.cons_eq_cons] at h
      obtain ⟨rfl, rfl⟩ := h
      exact ⟨cs, rfl, rfl⟩

/-- A text begins with no character but a carriage return that it did not begin with before. -/
theorem addReturns_ne_cons {c : Char} {cs : List Char} (hc : c ≠ '\r')
    (h : ∀ rest, cs = c :: rest → False) (ds : List Char) : addReturns cs = c :: ds → False := by
  intro hds
  obtain ⟨rest, hrest, _⟩ := exists_cons_of_addReturns hc hds
  exact h rest hrest

/-! ## Stretches of characters that are no line end -/

section

variable {p : Char → Bool} (hreturn : p '\r' = false) (hnewline : p '\n' = false)
include hreturn hnewline

/-- A front without line ends is the same before carriage returns. -/
theorem takeWhile_addReturns (cs : List Char) : (addReturns cs).takeWhile p = cs.takeWhile p := by
  induction cs with
  | nil => rfl
  | cons c cs ih =>
    by_cases hc : c = '\n'
    · simp [hc, hreturn, hnewline]
    · rw [addReturns_cons hc, List.takeWhile_cons, List.takeWhile_cons, ih]

/-- What follows a front without line ends has its carriage returns. -/
theorem dropWhile_addReturns (cs : List Char) :
    (addReturns cs).dropWhile p = addReturns (cs.dropWhile p) := by
  induction cs with
  | nil => rfl
  | cons c cs ih =>
    by_cases hc : c = '\n'
    · simp [hc, hreturn, hnewline]
    · rw [addReturns_cons hc, List.dropWhile_cons, List.dropWhile_cons, ih]
      split
      · rfl
      · rw [addReturns_cons hc]

end

/-! ## Lines without the blanks at their ends -/

/-- A line is itself without the blanks at its end, and then those blanks. -/
theorem exists_trimEnd_append (line : List Char) :
    ∃ blanks, line = trimEnd line ++ blanks ∧ isBlankLine blanks = true := by
  refine ⟨line.rtakeWhile isBlank, ?_, ?_⟩
  · rw [trimEnd_eq_rdropWhile, List.rdropWhile_append_rtakeWhile]
  · exact List.all_eq_true.mpr fun c hc => List.mem_rtakeWhile_imp hc

/-- Blanks behind a text are among those at its end. -/
theorem trimEnd_append_of_blank {ds : List Char} (h : isBlankLine ds = true) (cs : List Char) :
    trimEnd (cs ++ ds) = trimEnd cs := by
  induction ds using List.reverseRecOn with
  | nil => rw [List.append_nil]
  | append_singleton ds d ih =>
    rw [isBlankLine_append, Bool.and_eq_true] at h
    have hd : isBlank d = true := by simpa [isBlankLine] using h.2
    rw [← List.append_assoc, trimEnd_eq_rdropWhile, List.rdropWhile_concat_pos _ _ _ hd]
    exact ih h.1

/-- What stands before a line does not show the blanks at its end either. -/
theorem trimEnd_append_trimEnd (cs ds : List Char) :
    trimEnd (cs ++ trimEnd ds) = trimEnd (cs ++ ds) := by
  obtain ⟨blanks, hds, hblanks⟩ := exists_trimEnd_append ds
  conv_rhs => rw [hds, ← List.append_assoc]
  rw [trimEnd_append_of_blank hblanks]

/-- The blanks at the end can go first. -/
theorem trim_trimEnd (line : List Char) : trim (trimEnd line) = trim line := by
  obtain ⟨blanks, hline, hblanks⟩ := exists_trimEnd_append line
  by_cases hblank : isBlankLine line = true
  · have hstart : trimStart line = [] :=
      List.dropWhile_eq_nil_iff.mpr (List.all_eq_true.mp hblank)
    rw [trimEnd_eq_nil_iff.mpr hblank, trim, trim, hstart]
    rfl
  · have hkept : ¬ ∀ c ∈ trimEnd line, isBlank c = true := by
      intro hall
      apply hblank
      rw [← isBlankLine_trimEnd]
      exact List.all_eq_true.mpr hall
    have hstart : trimStart line = trimStart (trimEnd line) ++ blanks := by
      conv_lhs => rw [hline]
      rw [trimStart, trimStart, List.dropWhile_append, if_neg]
      simpa using hkept
    rw [trim, trim, hstart, trimEnd_append_of_blank hblanks]

/-- Without the blanks at their ends the lines of a text do not show whether it is kept with
carriage returns. -/
theorem map_trimEnd_splitLines_addReturns (cs : List Char) :
    (splitLines (addReturns cs)).map trimEnd = (splitLines cs).map trimEnd := by
  induction cs with
  | nil => rfl
  | cons c cs ih =>
    by_cases hc : c = '\n'
    · have hreturn : trimEnd ['\r'] = [] := by decide
      have hlines : splitLines ('\r' :: '\n' :: addReturns cs) =
          ['\r'] :: splitLines (addReturns cs) := splitLines_append ['\r'] (addReturns cs)
      rw [hc, addReturns_newline, hlines, splitLines_cons, if_pos rfl, List.map_cons,
        List.map_cons, ih, hreturn]
      rfl
    · have hline : ∀ ds, (splitLines (c :: ds)).map trimEnd =
          ((splitLines ds).map trimEnd).modifyHead fun line => trimEnd (c :: line) := by
        intro ds
        cases hs : splitLines ds with
        | nil => exact absurd hs (splitLines_ne_nil ds)
        | cons line rest =>
          have hcons := trimEnd_append_trimEnd [c] line
          simp only [List.singleton_append] at hcons
          simp [splitLines_cons, hc, hs, hcons]
      rw [addReturns_cons hc, hline, hline, ih]

end Interpose.Text
