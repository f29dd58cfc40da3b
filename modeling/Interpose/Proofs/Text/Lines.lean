import Interpose.Text.Margin
import Mathlib.Data.List.DropRight

/-!
# Lines and margins

Cutting a joined text gives its lines back, and what is found in a joined text without a line end is
found in one of its lines. A line is blank when it is a run of blanks; taking a blank run off its
front, or all blanks off its end, leaves it blank or not. The margin of lines is the longest front
that their indentations share, so nothing is left of it once it is removed.
-/

namespace Interpose.Text

/-- The characters of a text that is written in parts. Those of a literal are `String.toList_ofList`
by definition; computing them costs time that grows with the square of its length. -/
theorem toList_append_of_eq {s t : String} {cs ds : List Char} (hs : s.toList = cs)
    (ht : t.toList = ds) : (s ++ t).toList = cs ++ ds := by
  rw [String.toList_append, hs, ht]

/-! ## Cutting and joining -/

/-- A newline ends a line. -/
theorem splitLines_append (cs ds : List Char) :
    splitLines (cs ++ '\n' :: ds) = splitLines cs ++ splitLines ds :=
  List.splitOn_append_cons_self cs ds

/-- A text without newlines is a single line. -/
theorem splitLines_of_notMem {line : List Char} (h : '\n' ∉ line) : splitLines line = [line] :=
  List.splitOn_eq_singleton h

/-- No line holds a newline. -/
theorem notMem_of_mem_splitLines {cs line : List Char} (h : line ∈ splitLines cs) : '\n' ∉ line :=
  notMem_of_mem_splitOn h

/-- Lines without newlines come back when they are joined and cut. -/
theorem splitLines_joinLines {lines : List (List Char)} (hne : lines ≠ [])
    (h : ∀ line ∈ lines, '\n' ∉ line) : splitLines (joinLines lines) = lines :=
  List.splitOn_intercalate '\n' h hne

/-- What is found on both sides of a character that it does not hold is found on one side. -/
theorem infix_or_infix_of_notMem {word cs ds : List Char} {c : Char} (hc : c ∉ word)
    (h : word <:+: cs ++ c :: ds) : word <:+: cs ∨ word <:+: ds := by
  rcases List.infix_append_iff.mp h with hcs | hds | ⟨front, back, rfl, hfront, hback⟩
  · exact .inl hcs
  · rcases List.infix_cons_iff.mp hds with hprefix | hinfix
    · cases word with
      | nil => exact .inr (List.nil_infix)
      | cons d word =>
        obtain ⟨rfl, _⟩ := List.cons_prefix_cons.mp hprefix
        exact absurd List.mem_cons_self hc
    · exact .inr hinfix
  · cases back with
    | nil => exact .inl (by simpa using hfront.isInfix)
    | cons d back =>
      obtain ⟨rfl, _⟩ := List.cons_prefix_cons.mp hback
      simp at hc

/-- What holds no newline and is found in joined lines is found in one of them. -/
theorem exists_infix_of_infix_joinLines {word : List Char} {lines : List (List Char)}
    (hword : '\n' ∉ word) (hne : lines ≠ []) (h : word <:+: joinLines lines) :
    ∃ line ∈ lines, word <:+: line := by
  induction lines with
  | nil => exact absurd rfl hne
  | cons line lines ih =>
    cases lines with
    | nil => exact ⟨line, List.mem_cons_self, by simpa using h⟩
    | cons next lines =>
      rw [joinLines_cons_cons] at h
      rcases infix_or_infix_of_notMem hword h with hline | hrest
      · exact ⟨line, List.mem_cons_self, hline⟩
      · obtain ⟨found, hmem, hfound⟩ := ih (by simp) hrest
        exact ⟨found, List.mem_cons_of_mem _ hmem, hfound⟩

/-- Every line is found in the text. -/
theorem infix_joinLines_of_mem {lines : List (List Char)} {line : List Char} (h : line ∈ lines) :
    line <:+: joinLines lines := by
  induction lines with
  | nil => simp at h
  | cons first lines ih =>
    cases lines with
    | nil =>
      obtain rfl : line = first := by simpa using h
      exact ⟨[], [], by simp only [joinLines_singleton, List.nil_append, List.append_nil]⟩
    | cons next lines =>
      rw [joinLines_cons_cons]
      rcases List.mem_cons.mp h with rfl | hmem
      · exact List.infix_append_left
      · exact (ih hmem).trans ((List.suffix_cons _ _).trans (List.suffix_append _ _)).isInfix

/-! ## Blank lines -/

theorem trimEnd_eq_rdropWhile (cs : List Char) : trimEnd cs = cs.rdropWhile isBlank := rfl

/-- Two blank lines make a blank one. -/
theorem isBlankLine_append (cs ds : List Char) :
    isBlankLine (cs ++ ds) = (isBlankLine cs && isBlankLine ds) := by
  simp [isBlankLine]

/-- A line is blank exactly when nothing is left of it without the blanks at its end. -/
theorem trimEnd_eq_nil_iff {line : List Char} : trimEnd line = [] ↔ isBlankLine line = true := by
  rw [trimEnd_eq_rdropWhile, List.rdropWhile_eq_nil_iff]
  simp [isBlankLine]

/-- Nothing is left to trim after trimming. -/
theorem trimEnd_trimEnd (line : List Char) : trimEnd (trimEnd line) = trimEnd line :=
  List.rdropWhile_idempotent isBlank line

/-- A line stays blank or not without the blanks at its end. -/
theorem isBlankLine_trimEnd (line : List Char) : isBlankLine (trimEnd line) = isBlankLine line := by
  rw [Bool.eq_iff_iff, ← trimEnd_eq_nil_iff, ← trimEnd_eq_nil_iff, trimEnd_trimEnd]

/-- Blanks at the front do not matter for those at the end, unless nothing else is there. -/
theorem trimEnd_append_of_not_blank {cs ds : List Char} (h : isBlankLine ds = false) :
    trimEnd (cs ++ ds) = cs ++ trimEnd ds := by
  have hne : ds.reverse.dropWhile isBlank ≠ [] := by
    intro hnil
    have hblank : isBlankLine ds = true := by
      rw [← trimEnd_eq_nil_iff, trimEnd, hnil]
      rfl
    rw [h] at hblank
    simp at hblank
  rw [trimEnd, List.reverse_append, List.dropWhile_append]
  simp [trimEnd, hne]

/-! ## Margins -/

/-- What two lines begin with is in their common front. -/
theorem commonFront_append (front cs ds : List Char) :
    commonFront (front ++ cs) (front ++ ds) = front ++ commonFront cs ds := by
  induction front with
  | nil => rfl
  | cons c front ih => simp [commonFront, ih]

/-- The common front is in front of the first line. -/
theorem commonFront_prefix_left (cs ds : List Char) : commonFront cs ds <+: cs := by
  fun_induction commonFront cs ds with
  | case1 a as bs ih => exact List.cons_prefix_cons.mpr ⟨rfl, ih⟩
  | case2 => exact List.nil_prefix
  | case3 => exact List.nil_prefix

/-- The common front is in front of the second line. -/
theorem commonFront_prefix_right (cs ds : List Char) : commonFront cs ds <+: ds := by
  fun_induction commonFront cs ds with
  | case1 a as bs ih => exact List.cons_prefix_cons.mpr ⟨rfl, ih⟩
  | case2 => exact List.nil_prefix
  | case3 => exact List.nil_prefix

/-- What several texts share at the front is at the front of each of them. -/
theorem foldl_commonFront_prefix (first : List Char) (rest : List (List Char)) :
    rest.foldl commonFront first <+: first ∧
      ∀ cs ∈ rest, rest.foldl commonFront first <+: cs := by
  induction rest generalizing first with
  | nil => simp
  | cons next rest ih =>
    obtain ⟨hfirst, hrest⟩ := ih (commonFront first next)
    refine ⟨hfirst.trans (commonFront_prefix_left _ _), fun cs hmem => ?_⟩
    rcases List.mem_cons.mp hmem with rfl | hmem
    · exact hfirst.trans (commonFront_prefix_right _ _)
    · exact hrest cs hmem

/-- What lines begin with is in front of their common front. -/
theorem foldl_commonFront_append (front first : List Char) (rest : List (List Char)) :
    (rest.map (front ++ ·)).foldl commonFront (front ++ first) =
      front ++ rest.foldl commonFront first := by
  induction rest generalizing first with
  | nil => rfl
  | cons next rest ih =>
    rw [List.map_cons, List.foldl_cons, commonFront_append, ih, List.foldl_cons]

/-- The margin is at the front of every line that is not empty, in its indentation. -/
theorem marginOf_prefix_indentOf {lines : List (List Char)} {line : List Char} (h : line ∈ lines)
    (hne : line ≠ []) : marginOf lines <+: indentOf line := by
  have hmem : indentOf line ∈ (lines.filter fun line => !line.isEmpty).map indentOf :=
    List.mem_map_of_mem (List.mem_filter.mpr ⟨h, by simpa using hne⟩)
  unfold marginOf
  split
  · exact List.nil_prefix
  · rename_i first rest heq
    rw [heq] at hmem
    obtain ⟨hfirst, hrest⟩ := foldl_commonFront_prefix first rest
    rcases List.mem_cons.mp hmem with heq' | hmem
    · rw [heq']
      exact hfirst
    · exact hrest _ hmem

end Interpose.Text
