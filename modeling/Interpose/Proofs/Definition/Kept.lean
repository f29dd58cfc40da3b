import Interpose.Proofs.Generation

/-!
# What is kept of a body

A body has a block of text: its lines from the first that holds text to the last. What is kept are
the lines of the block, in order, without the blanks at their ends and without the longest margin of
spaces and tabs that all of them with text share. So nothing is lost by writing the body anew, with
a further margin before all lines, other blanks behind them and blank lines around them.
-/

namespace Interpose

open Source Text

/-! ## Specification -/

/-- The lines from the first that holds text to the last. Only blank lines stand around them. -/
structure TextBlock (lines block : List (List Char)) : Prop where
  /-- The block is a stretch of the lines, and the others are blank. -/
  within : ∃ above below, lines = above ++ block ++ below ∧
    ∀ line ∈ above ++ below, isBlankLine line = true
  /-- The first line of the block holds text. -/
  head : ∀ line ∈ block.head?, isBlankLine line = false
  /-- The last line of the block holds text. -/
  last : ∀ line ∈ block.getLast?, isBlankLine line = false

/-- Spaces and tabs with which all lines begin that hold text. -/
structure SharedMargin (lines : List (List Char)) (margin : List Char) : Prop where
  /-- Nothing else stands in a margin. -/
  spaces : ∀ c ∈ margin, c = ' ' ∨ c = '\t'
  /-- Every line with text begins with it. -/
  front : ∀ line ∈ lines, isBlankLine line = false → margin <+: line

/-- The longest of the margins that lines share. Lines without text have no longest one. -/
structure LongestMargin (lines : List (List Char)) (margin : List Char) : Prop
    extends SharedMargin lines margin where
  /-- Every other shared margin is a front of it. -/
  longest : ∀ line ∈ lines, isBlankLine line = false →
    ∀ other, SharedMargin lines other → other <+: margin

/-- What is kept of a line behind a margin. A blank line is kept as an empty one. -/
def KeptBehind (margin line kept : List Char) : Prop :=
  if isBlankLine line = true then kept = [] else line = margin ++ kept

/-- Lines written anew: each behind a further indentation, with other blanks at its end, and all of
them among blank lines. -/
structure Relaid (indent : List Char) (lines others : List (List Char)) : Prop where
  /-- The indentation is of spaces and tabs. -/
  spaces : ∀ c ∈ indent, c = ' ' ∨ c = '\t'
  /-- The lines stand among blank ones. -/
  within : ∃ above relaid below, others = above ++ relaid ++ below ∧
    (∀ line ∈ above ++ below, isBlankLine line = true) ∧
    List.Forall₂ (fun line other => trimEnd other = trimEnd (indent ++ line)) lines relaid

/-! ## The block -/

theorem textBlock_trimBlankLines (lines : List (List Char)) :
    TextBlock lines (trimBlankLines lines) := by
  obtain ⟨hhead, hlast⟩ := head_last_trimBlankLines lines
  refine ⟨⟨lines.takeWhile isBlankLine, (lines.dropWhile isBlankLine).rtakeWhile isBlankLine,
    ?_, ?_⟩, hhead, hlast⟩
  · rw [trimBlankLines_eq, List.append_assoc, List.rdropWhile_append_rtakeWhile,
      List.takeWhile_append_dropWhile]
  · intro line hmem
    rcases List.mem_append.mp hmem with habove | hbelow
    · exact List.all_eq_true.mp List.all_takeWhile line habove
    · exact List.mem_rtakeWhile_imp hbelow

/-- Blank lines around others are not in their block. -/
theorem trimBlankLines_surrounded {above below : List (List Char)} (lines : List (List Char))
    (h : ∀ line ∈ above ++ below, isBlankLine line = true) :
    trimBlankLines (above ++ lines ++ below) = trimBlankLines lines := by
  have hbelow : trimBlankLines (lines ++ below) = trimBlankLines lines := by
    induction below using List.reverseRecOn with
    | nil => rw [List.append_nil]
    | append_singleton below line ih =>
      rw [← List.append_assoc, trimBlankLines_concat (h line (by simp))]
      apply ih
      intro other hother
      apply h
      simp only [List.mem_append] at hother ⊢
      tauto
  induction above with
  | nil => exact hbelow
  | cons line above ih =>
    rw [List.cons_append, List.cons_append, trimBlankLines_cons (h line (by simp))]
    exact ih fun other hother => h other (List.mem_cons_of_mem _ hother)

/-- The block is found by the text of the lines alone. -/
theorem trimBlankLines_map {f : List Char → List Char}
    (hf : ∀ line, isBlankLine (f line) = isBlankLine line) (lines : List (List Char)) :
    trimBlankLines (lines.map f) = (trimBlankLines lines).map f := by
  have hblank : isBlankLine ∘ f = isBlankLine := funext hf
  simp only [trimBlankLines, List.dropWhile_map, ← List.map_reverse, hblank]

/-! ## The margin -/

theorem prefix_commonFront {front cs ds : List Char} (hcs : front <+: cs) (hds : front <+: ds) :
    front <+: commonFront cs ds := by
  obtain ⟨cs, rfl⟩ := hcs
  obtain ⟨ds, rfl⟩ := hds
  rw [commonFront_append]
  exact List.prefix_append _ _

theorem prefix_foldl_commonFront {front first : List Char} {rest : List (List Char)}
    (hfirst : front <+: first) (hrest : ∀ cs ∈ rest, front <+: cs) :
    front <+: rest.foldl commonFront first := by
  induction rest generalizing first with
  | nil => exact hfirst
  | cons next rest ih =>
    obtain ⟨hnext, hrest⟩ := List.forall_mem_cons.mp hrest
    exact ih (prefix_commonFront hfirst hnext) hrest

theorem isBlankLine_of_spaces {margin : List Char} (h : ∀ c ∈ margin, c = ' ' ∨ c = '\t') :
    isBlankLine margin = true := by
  apply List.all_eq_true.mpr
  intro c hc
  rcases h c hc with rfl | rfl <;> decide

/-- A margin of a line is in its indentation. -/
theorem prefix_indentOf {margin line : List Char} (hspaces : ∀ c ∈ margin, c = ' ' ∨ c = '\t')
    (h : margin <+: line) : margin <+: indentOf line := by
  obtain ⟨tail, rfl⟩ := h
  rw [indentOf, List.takeWhile_append_of_pos (by simpa using hspaces)]
  exact List.prefix_append _ _

section

variable {lines : List (List Char)} (htrimmed : ∀ line ∈ lines, trimEnd line = line)
include htrimmed

theorem eq_nil_of_isBlankLine {line : List Char} (h : line ∈ lines)
    (hblank : isBlankLine line = true) : line = [] := by
  rw [← htrimmed line h]
  exact trimEnd_eq_nil_iff.mpr hblank

/-- The margin that is removed is the longest that the lines share. -/
theorem longestMargin_marginOf : LongestMargin lines (marginOf lines) := by
  have hfront : ∀ line ∈ lines, isBlankLine line = false → marginOf lines <+: indentOf line := by
    intro line hmem htext
    apply marginOf_prefix_indentOf hmem
    rintro rfl
    simp [isBlankLine] at htext
  refine ⟨⟨?_, fun line hmem htext => ?_⟩, fun line hmem htext other hother => ?_⟩
  · intro c hc
    unfold marginOf at hc
    split at hc
    · simp at hc
    · rename_i indent rest heq
      have hfronts := foldl_commonFront_prefix indent rest
      have hin := hfronts.1.subset hc
      have hindent : indent ∈ (lines.filter fun line => !line.isEmpty).map indentOf := by
        rw [heq]
        exact List.mem_cons_self
      obtain ⟨line, _, rfl⟩ := List.mem_map.mp hindent
      simpa using List.all_eq_true.mp List.all_takeWhile c hin
  · exact (hfront line hmem htext).trans (List.takeWhile_prefix _)
  · -- Some line holds text, so the margin is folded from a first indentation.
    have hall : ∀ indent ∈ (lines.filter fun line => !line.isEmpty).map indentOf,
        other <+: indent := by
      intro indent hindent
      obtain ⟨raw, hraw, rfl⟩ := List.mem_map.mp hindent
      obtain ⟨hraw, hne⟩ := List.mem_filter.mp hraw
      apply prefix_indentOf hother.spaces
      apply hother.front raw hraw
      by_contra hblank
      rw [Bool.not_eq_false] at hblank
      simp [eq_nil_of_isBlankLine htrimmed hraw hblank] at hne
    have hne : line ≠ [] := by
      rintro rfl
      simp [isBlankLine] at htext
    have hmem : indentOf line ∈ (lines.filter fun line => !line.isEmpty).map indentOf :=
      List.mem_map_of_mem (List.mem_filter.mpr ⟨hmem, by simpa using hne⟩)
    unfold marginOf
    split
    · rename_i heq
      rw [heq] at hmem
      simp at hmem
    · rename_i indent rest heq
      rw [heq] at hall
      obtain ⟨hfirst, hrest⟩ := List.forall_mem_cons.mp hall
      exact prefix_foldl_commonFront hfirst hrest

/-- Removing the margin keeps what stands behind it. -/
theorem keptBehind_removeMargin :
    List.Forall₂ (KeptBehind (marginOf lines)) lines (removeMargin lines) := by
  rw [removeMargin, List.forall₂_map_right_iff, List.forall₂_same]
  intro line hmem
  unfold KeptBehind
  by_cases hblank : isBlankLine line = true
  · rw [if_pos hblank, eq_nil_of_isBlankLine htrimmed hmem hblank, List.drop_nil]
  · rw [if_neg hblank]
    have hne : line ≠ [] := by
      rintro rfl
      exact hblank rfl
    obtain ⟨tail, htail, _⟩ := eq_margin_append htrimmed hmem hne
    have hdrop : line.drop (marginOf lines).length = tail := by rw [htail, List.drop_left]
    rw [hdrop]
    exact htail

end

/-! ## A further indentation -/

/-- A line behind an indentation. An empty line stays empty. -/
def indented (indent line : List Char) : List Char := if line = [] then [] else indent ++ line

section

variable {indent : List Char} (hspaces : ∀ c ∈ indent, c = ' ' ∨ c = '\t')
include hspaces

theorem isBlankLine_indented (line : List Char) :
    isBlankLine (indented indent line) = isBlankLine line := by
  unfold indented
  split
  · rename_i hnil
    rw [hnil]
  · rw [isBlankLine_append, isBlankLine_of_spaces hspaces, Bool.true_and]

/-- A line without the blanks at its end, behind an indentation. -/
theorem trimEnd_indent_append (line : List Char) :
    trimEnd (indent ++ line) = indented indent (trimEnd line) := by
  unfold indented
  by_cases hblank : isBlankLine line = true
  · rw [if_pos (trimEnd_eq_nil_iff.mpr hblank), trimEnd_eq_nil_iff, isBlankLine_append, hblank,
      isBlankLine_of_spaces hspaces]
    rfl
  · rw [if_neg fun hnil => hblank (trimEnd_eq_nil_iff.mp hnil)]
    rw [Bool.not_eq_true] at hblank
    exact trimEnd_append_of_not_blank hblank

/-- An indentation of all lines is part of their margin. -/
theorem marginOf_indented {lines : List (List Char)} (hne : ∃ line ∈ lines, line ≠ []) :
    marginOf (lines.map (indented indent)) = indent ++ marginOf lines := by
  have hempty : (fun line : List Char => !line.isEmpty) ∘ indented indent =
      fun line => !line.isEmpty := by
    funext line
    cases line with
    | nil => rfl
    | cons c line => simp [indented]
  have hindent : ∀ line ∈ lines.filter fun line => !line.isEmpty,
      indentOf (indented indent line) = indent ++ indentOf line := by
    intro line hmem
    have hnil : line ≠ [] := by simpa using (List.mem_filter.mp hmem).2
    rw [indented, if_neg hnil, indentOf, List.takeWhile_append_of_pos (by simpa using hspaces)]
    rfl
  have hindents : ((lines.map (indented indent)).filter fun line => !line.isEmpty).map indentOf =
      ((lines.filter fun line => !line.isEmpty).map indentOf).map (indent ++ ·) := by
    rw [List.filter_map, hempty, List.map_map, List.map_map]
    exact List.map_congr_left hindent
  obtain ⟨line, hmem, hne⟩ := hne
  have hin : indentOf line ∈ (lines.filter fun line => !line.isEmpty).map indentOf :=
    List.mem_map_of_mem (List.mem_filter.mpr ⟨hmem, by simpa using hne⟩)
  unfold marginOf
  rw [hindents]
  cases hrest : (lines.filter fun line => !line.isEmpty).map indentOf with
  | nil =>
    rw [hrest] at hin
    simp at hin
  | cons first rest => exact foldl_commonFront_append _ _ _

/-- Lines without their margin do not show how far all of them were indented. -/
theorem removeMargin_indented (lines : List (List Char)) :
    removeMargin (lines.map (indented indent)) = removeMargin lines := by
  by_cases hne : ∃ line ∈ lines, line ≠ []
  · rw [removeMargin, marginOf_indented hspaces hne, List.map_map, removeMargin]
    apply List.map_congr_left
    intro line _
    by_cases hnil : line = []
    · simp [indented, hnil]
    · simp [indented, hnil, List.length_append, List.drop_append]
  · push Not at hne
    have hsame : lines.map (indented indent) = lines := by
      conv_rhs => rw [← List.map_id lines]
      apply List.map_congr_left
      intro line hmem
      rw [hne line hmem]
      rfl
    rw [hsame]

/-- What is kept does not show how far all lines were indented, what blanks stood at their ends, or
how many blank lines stood around them. -/
theorem keptLines_relaid {lines others : List (List Char)} (h : Relaid indent lines others) :
    keptLines others = keptLines lines := by
  obtain ⟨_, above, relaid, below, rfl, hblank, hrelaid⟩ := h
  have htrimmed : relaid.map trimEnd = (lines.map trimEnd).map (indented indent) := by
    rw [List.map_map]
    apply map_eq_of_forall₂
    apply hrelaid.imp
    intro line other hother
    rw [hother, trimEnd_indent_append hspaces]
    rfl
  calc
    keptLines (above ++ relaid ++ below)
    _ = removeMargin (trimBlankLines (relaid.map trimEnd)) := by
      rw [keptLines, trimBlankLines_surrounded relaid hblank,
        trimBlankLines_map isBlankLine_trimEnd]
    _ = removeMargin (trimBlankLines (lines.map trimEnd)) := by
      rw [htrimmed, trimBlankLines_map (isBlankLine_indented hspaces),
        removeMargin_indented hspaces]
    _ = keptLines lines := by rw [trimBlankLines_map isBlankLine_trimEnd, keptLines]

/-- Text stands beside the fence and below it only if it did so before the lines were relaid. -/
theorem textOnFence_relaid {lines others : List (List Char)} (h : Relaid indent lines others)
    (hfence : textOnFence lines = false) : textOnFence others = false := by
  obtain ⟨_, above, relaid, below, rfl, hblank, hrelaid⟩ := h
  have hsame : ∀ line other, trimEnd other = trimEnd (indent ++ line) →
      isBlankLine other = isBlankLine line := by
    intro line other hother
    rw [← isBlankLine_trimEnd, hother, isBlankLine_trimEnd, isBlankLine_append,
      isBlankLine_of_spaces hspaces, Bool.true_and]
  cases above with
  | cons line above =>
    have hline : isBlankLine line = true := hblank line (by simp)
    simp [textOnFence, hline]
  | nil =>
    have hbelow : (below.any fun line => !isBlankLine line) = false := by
      simpa using hblank
    cases hrelaid with
    | nil =>
      cases below with
      | nil => rfl
      | cons line below => simp [textOnFence, hblank line (by simp)]
    | cons hfirst hrest =>
      rename_i first other rest relaid
      have hany : (relaid.any fun line => !isBlankLine line) =
          rest.any fun line => !isBlankLine line := by
        clear hfence
        induction hrest with
        | nil => rfl
        | cons hline _ ih => rw [List.any_cons, List.any_cons, hsame _ _ hline, ih]
      rw [List.nil_append, List.cons_append, textOnFence, List.any_append, hbelow, hany,
        hsame _ _ hfirst, Bool.or_false]
      exact hfence

end

/-! ## Cleaning -/

/-- The lines that are kept of a block are lines of a text. -/
theorem splitLines_joinLines_keptLines {lines : List (List Char)} (hne : trimBlankLines lines ≠ [])
    (h : ∀ line ∈ lines, '\n' ∉ line) :
    splitLines (joinLines (keptLines lines)) = keptLines lines := by
  apply splitLines_joinLines
  · intro hnil
    apply hne
    simpa [keptLines, removeMargin] using hnil
  · intro line hmem hnewline
    obtain ⟨raw, hraw, hinner⟩ := exists_infix_of_mem_keptLines hmem
    exact h raw hraw (hinner.subset hnewline)

/-- A body is refused exactly when text stands beside its opening fence and below. Of any other body
the lines of its block are kept, in their order and behind their longest margin, and so they are
however the body is relaid. -/
theorem Fenced.clean_keeps_block (body : Fenced) :
    (body.BesideFence →
      ∃ fault, body.clean = .error fault ∧ fault.kind = .form ∧ fault.span = body.span) ∧
    (¬ body.BesideFence → ∃ block margin kept,
      TextBlock (splitLines body.text.toList) block ∧
      LongestMargin (block.map trimEnd) margin ∧
      List.Forall₂ (KeptBehind margin) (block.map trimEnd) kept ∧
      body.clean = .ok (String.ofList (joinLines kept)) ∧
      (block ≠ [] → splitLines (joinLines kept) = kept) ∧
      ∀ (indent : List Char) (other : Fenced),
        Relaid indent (splitLines body.text.toList) (splitLines other.text.toList) →
        other.clean = body.clean) := by
  constructor
  · intro hbeside
    rw [← besideFence_iff] at hbeside
    exact ⟨_, if_pos hbeside, rfl, rfl⟩
  · intro hbeside
    rw [← besideFence_iff, Bool.not_eq_true] at hbeside
    have htrimmed : ∀ line ∈ (trimBlankLines (splitLines body.text.toList)).map trimEnd,
        trimEnd line = line := by
      intro line hmem
      obtain ⟨raw, _, rfl⟩ := List.mem_map.mp hmem
      exact trimEnd_trimEnd raw
    have hclean := clean_eq_ok_iff.mpr ⟨hbeside, rfl⟩
    refine ⟨_, _, keptLines (splitLines body.text.toList), textBlock_trimBlankLines _,
      longestMargin_marginOf htrimmed, keptBehind_removeMargin htrimmed, hclean, ?_, ?_⟩
    · intro hne
      exact splitLines_joinLines_keptLines hne fun _ => notMem_of_mem_splitLines
    · intro indent other hrelaid
      rw [hclean, clean_eq_ok_iff]
      refine ⟨textOnFence_relaid hrelaid.spaces hrelaid hbeside, ?_⟩
      rw [keptLines_relaid hrelaid.spaces hrelaid]

/-- A body whose second line with text is indented by a space more, after a tab that both share. -/
def mixedBody : Fenced := ⟨"  \n\t if x: \n\x0c\n\t  y\n\n", .none⟩

/-- A body that begins beside its fence and goes on below. -/
def crossedBody : Fenced := ⟨"if x:\n  y", .none⟩

/-- The tab and the first space go, and with them all that is not text at the ends. -/
theorem clean_keeps_block_mixed :
    mixedBody.clean = .ok "if x:\n\n y" ∧ ¬ mixedBody.BesideFence ∧
    (∃ block margin kept,
      TextBlock (splitLines mixedBody.text.toList) block ∧
      LongestMargin (block.map trimEnd) margin ∧
      List.Forall₂ (KeptBehind margin) (block.map trimEnd) kept ∧
      mixedBody.clean = .ok (String.ofList (joinLines kept)) ∧
      (block ≠ [] → splitLines (joinLines kept) = kept) ∧
      ∀ (indent : List Char) (other : Fenced),
        Relaid indent (splitLines mixedBody.text.toList) (splitLines other.text.toList) →
        other.clean = mixedBody.clean) ∧
    crossedBody.BesideFence ∧
    ∃ fault, crossedBody.clean = .error fault ∧ fault.kind = .form ∧
      fault.span = crossedBody.span := by
  have hmixed : ¬ mixedBody.BesideFence := by
    rw [← Fenced.besideFence_iff]
    decide
  have hcrossed : crossedBody.BesideFence := by
    rw [← Fenced.besideFence_iff]
    decide
  refine ⟨by decide, hmixed, ?_, hcrossed, ?_⟩
  · exact (Fenced.clean_keeps_block mixedBody).2 hmixed
  · exact (Fenced.clean_keeps_block crossedBody).1 hcrossed

end Interpose
