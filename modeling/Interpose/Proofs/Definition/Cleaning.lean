import Interpose.Definition.Body
import Interpose.Proofs.Text.Lines

/-!
# Cleaning bodies

What is kept of a body is tidy: its first and its last line hold text, no line ends in blanks, and
its lines share no margin. Cleaning leaves a tidy body as it is, so cleaning twice is cleaning once.
-/

namespace Interpose

open Text

/-- Lines that cleaning leaves as they are. -/
structure Tidy (lines : List (List Char)) : Prop where
  /-- The first line holds text. -/
  head : ∀ line ∈ lines.head?, isBlankLine line = false
  /-- The last line holds text. -/
  last : ∀ line ∈ lines.getLast?, isBlankLine line = false
  /-- No line ends in blanks. -/
  trimmed : ∀ line ∈ lines, trimEnd line = line
  /-- The lines share no margin. -/
  margin : marginOf lines = []

/-! ## Blank lines at the ends -/

theorem trimBlankLines_eq (lines : List (List Char)) :
    trimBlankLines lines = (lines.dropWhile isBlankLine).rdropWhile isBlankLine := rfl

theorem trimBlankLines_cons {line : List Char} (h : isBlankLine line = true)
    (lines : List (List Char)) : trimBlankLines (line :: lines) = trimBlankLines lines := by
  rw [trimBlankLines_eq, List.dropWhile_cons_of_pos h, trimBlankLines_eq]

theorem trimBlankLines_concat {line : List Char} (h : isBlankLine line = true)
    (lines : List (List Char)) : trimBlankLines (lines ++ [line]) = trimBlankLines lines := by
  rw [trimBlankLines_eq, trimBlankLines_eq, List.dropWhile_append]
  cases hd : lines.dropWhile isBlankLine with
  | nil => simp [h]
  | cons first rest => exact List.rdropWhile_concat_pos _ _ _ h

/-- The first and the last of the lines that are left hold text. -/
theorem head_last_trimBlankLines (lines : List (List Char)) :
    (∀ line ∈ (trimBlankLines lines).head?, isBlankLine line = false) ∧
      ∀ line ∈ (trimBlankLines lines).getLast?, isBlankLine line = false := by
  rw [trimBlankLines_eq]
  constructor
  · intro line hline
    obtain ⟨tail, htail⟩ := List.rdropWhile_prefix isBlankLine (lines.dropWhile isBlankLine)
    have hhead : line ∈ (lines.dropWhile isBlankLine).head? := by
      rw [← htail, List.head?_append]
      simp_all
    have hne : lines.dropWhile isBlankLine ≠ [] := by
      intro hnil
      simp [hnil] at hhead
    have hnot := List.head_dropWhile_not isBlankLine hne
    rw [List.head?_eq_some_head hne] at hhead
    rwa [Option.some.inj hhead] at hnot
  · intro line hline
    have hne : (lines.dropWhile isBlankLine).rdropWhile isBlankLine ≠ [] := by
      intro hnil
      simp [hnil] at hline
    have hnot := List.rdropWhile_last_not isBlankLine (lines.dropWhile isBlankLine) hne
    rw [List.getLast?_eq_some_getLast hne] at hline
    rw [Option.some.inj hline] at hnot
    simpa using hnot

theorem Tidy.trimBlankLines_eq_self {lines : List (List Char)} (h : Tidy lines) :
    trimBlankLines lines = lines := by
  have hfront : lines.dropWhile isBlankLine = lines := by
    cases lines with
    | nil => rfl
    | cons line lines => exact List.dropWhile_cons_of_neg (by simp [h.head line rfl])
  rw [trimBlankLines_eq, hfront, List.rdropWhile_eq_self_iff]
  intro hne
  simp [h.last _ (List.getLast?_eq_some_getLast hne)]

/-! ## The margin -/

section

variable {lines : List (List Char)} (htrimmed : ∀ line ∈ lines, trimEnd line = line)
include htrimmed

/-- The margin stands before the text of every line that is not empty. -/
theorem eq_margin_append {line : List Char} (h : line ∈ lines) (hne : line ≠ []) :
    ∃ tail, line = marginOf lines ++ tail ∧ isBlankLine tail = false := by
  have hmargin := marginOf_prefix_indentOf h hne
  obtain ⟨tail, htail⟩ := hmargin.trans (List.takeWhile_prefix _)
  refine ⟨tail, htail.symm, ?_⟩
  have hblank : isBlankLine (marginOf lines) = true := by
    rw [isBlankLine, List.all_eq_true]
    intro c hc
    have hindent := List.all_eq_true.mp List.all_takeWhile c (hmargin.subset hc)
    simp only [Bool.or_eq_true, decide_eq_true_eq] at hindent
    rcases hindent with rfl | rfl <;> decide
  have hline : isBlankLine line = false := by
    rw [← Bool.not_eq_true, ← trimEnd_eq_nil_iff, htrimmed line h]
    exact hne
  rw [← htail, isBlankLine_append, hblank, Bool.true_and] at hline
  exact hline

/-- What is left of a line without the margin. -/
theorem drop_margin {line : List Char} (h : line ∈ lines) :
    isBlankLine (line.drop (marginOf lines).length) = isBlankLine line ∧
      trimEnd (line.drop (marginOf lines).length) = line.drop (marginOf lines).length ∧
      (line ≠ [] → indentOf line =
        marginOf lines ++ indentOf (line.drop (marginOf lines).length)) := by
  by_cases hne : line = []
  · subst hne
    simp
  · obtain ⟨tail, htail, hblank⟩ := eq_margin_append htrimmed h hne
    have hdrop : line.drop (marginOf lines).length = tail := by
      rw [htail, List.drop_left]
    have hmargin := marginOf_prefix_indentOf h hne
    have hspaces : ∀ c ∈ marginOf lines, (decide (c = ' ') || decide (c = '\t')) = true :=
      fun c hc => List.all_eq_true.mp List.all_takeWhile c (hmargin.subset hc)
    have htrim := htrimmed line h
    rw [htail, trimEnd_append_of_not_blank hblank] at htrim
    refine ⟨?_, ?_, fun _ => ?_⟩
    · rw [hdrop, hblank, htail, isBlankLine_append, hblank, Bool.and_false]
    · rw [hdrop]
      exact List.append_cancel_left htrim
    · rw [hdrop]
      nth_rewrite 1 [htail]
      rw [indentOf, List.takeWhile_append_of_pos hspaces]
      rfl

/-- Without the margin the lines share none. -/
theorem marginOf_removeMargin : marginOf (removeMargin lines) = [] := by
  have hempty : ∀ line ∈ lines, (line.drop (marginOf lines).length).isEmpty = line.isEmpty := by
    intro line hmem
    by_cases hne : line = []
    · simp [hne]
    · obtain ⟨tail, htail, hblank⟩ := eq_margin_append htrimmed hmem hne
      rw [htail, List.drop_left]
      cases tail with
      | nil => simp [isBlankLine] at hblank
      | cons c tail => simp
  have hfilter : (removeMargin lines).filter (fun line => !line.isEmpty) =
      (lines.filter fun line => !line.isEmpty).map (List.drop (marginOf lines).length) := by
    rw [removeMargin, List.filter_map]
    congr 1
    refine List.filter_congr fun line hmem => ?_
    simp [hempty line hmem]
  have hindents : (lines.filter fun line => !line.isEmpty).map indentOf =
      (((removeMargin lines).filter fun line => !line.isEmpty).map indentOf).map
        (marginOf lines ++ ·) := by
    rw [hfilter, List.map_map, List.map_map]
    refine List.map_congr_left fun line hmem => ?_
    obtain ⟨hline, hne⟩ := List.mem_filter.mp hmem
    exact (drop_margin htrimmed hline).2.2 (by simpa using hne)
  have hmargin : marginOf lines = marginOf lines ++ marginOf (removeMargin lines) := by
    nth_rewrite 1 [marginOf]
    nth_rewrite 2 [marginOf]
    rw [hindents]
    cases hrest : ((removeMargin lines).filter fun line => !line.isEmpty).map indentOf with
    | nil =>
      rw [hrest, List.map_nil] at hindents
      simp [marginOf, hindents]
    | cons first rest =>
      rw [List.map_cons]
      exact foldl_commonFront_append _ _ _
  exact List.self_eq_append_right.mp hmargin

end

/-! ## Cleaning -/

theorem Tidy.keptLines_eq_self {lines : List (List Char)} (h : Tidy lines) :
    keptLines lines = lines := by
  have htrim : lines.map trimEnd = lines := by
    conv_rhs => rw [← List.map_id lines]
    exact List.map_congr_left h.trimmed
  have hdrop : lines.map (List.drop 0) = lines := by
    conv_rhs => rw [← List.map_id lines]
    exact List.map_congr_left fun line _ => rfl
  rw [keptLines, h.trimBlankLines_eq_self, htrim, removeMargin, h.margin]
  exact hdrop

/-- What is kept of a body is tidy. -/
theorem tidy_keptLines (lines : List (List Char)) : Tidy (keptLines lines) := by
  obtain ⟨hhead, hlast⟩ := head_last_trimBlankLines lines
  have htrimmed : ∀ line ∈ (trimBlankLines lines).map trimEnd, trimEnd line = line := by
    intro line hmem
    obtain ⟨raw, _, rfl⟩ := List.mem_map.mp hmem
    exact trimEnd_trimEnd raw
  -- The text of a line survives both its blanks at the end and the margin.
  have hblank : ∀ raw ∈ trimBlankLines lines, isBlankLine ((trimEnd raw).drop
      (marginOf ((trimBlankLines lines).map trimEnd)).length) = isBlankLine raw := by
    intro raw hmem
    rw [(drop_margin htrimmed (List.mem_map_of_mem hmem)).1, isBlankLine_trimEnd]
  refine ⟨?_, ?_, ?_, marginOf_removeMargin htrimmed⟩
  · intro line hline
    rw [keptLines, removeMargin, List.head?_map, List.head?_map] at hline
    obtain ⟨raw, hraw, rfl⟩ := Option.map_eq_some_iff.mp (Option.map_map .. ▸ hline)
    exact (hblank raw (List.mem_of_head? hraw)).trans (hhead raw hraw)
  · intro line hline
    rw [keptLines, removeMargin, List.getLast?_map, List.getLast?_map] at hline
    obtain ⟨raw, hraw, rfl⟩ := Option.map_eq_some_iff.mp (Option.map_map .. ▸ hline)
    exact (hblank raw (List.mem_of_getLast? hraw)).trans (hlast raw hraw)
  · intro line hmem
    obtain ⟨trimmed, htrim, rfl⟩ := List.mem_map.mp hmem
    exact (drop_margin htrimmed htrim).2.1

/-- Every line that is kept is found in a line of the body. -/
theorem exists_infix_of_mem_keptLines {lines : List (List Char)} {line : List Char}
    (h : line ∈ keptLines lines) : ∃ raw ∈ lines, line <:+: raw := by
  obtain ⟨trimmed, htrim, rfl⟩ := List.mem_map.mp h
  obtain ⟨raw, hraw, rfl⟩ := List.mem_map.mp htrim
  have hmem : raw ∈ lines := by
    rw [trimBlankLines_eq] at hraw
    exact (List.dropWhile_suffix _).subset ((List.rdropWhile_prefix _ _).subset hraw)
  refine ⟨raw, hmem, (List.drop_suffix _ _).isInfix.trans ?_⟩
  exact (List.rdropWhile_prefix isBlank raw).isInfix

/-- The lines that are kept of a text are single lines. -/
theorem notMem_of_mem_keptLines {cs line : List Char} (h : line ∈ keptLines (splitLines cs)) :
    '\n' ∉ line := by
  intro hnewline
  obtain ⟨raw, hraw, hinner⟩ := exists_infix_of_mem_keptLines h
  exact notMem_of_mem_splitLines hraw (hinner.subset hnewline)

/-- The lines that are kept, joined and cut again, are kept as they are. -/
theorem keptLines_splitLines_joinLines (cs : List Char) :
    joinLines (keptLines (splitLines (joinLines (keptLines (splitLines cs))))) =
      joinLines (keptLines (splitLines cs)) := by
  by_cases hne : keptLines (splitLines cs) = []
  · rw [hne]
    rfl
  · rw [splitLines_joinLines hne fun _ => notMem_of_mem_keptLines,
      (tidy_keptLines _).keptLines_eq_self]

end Interpose
