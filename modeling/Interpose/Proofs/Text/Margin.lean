import Interpose.Proofs.Text.Lines
import Mathlib.Data.List.Infix

/-!
# Indented texts

Indenting looks at the pieces of a text, which end at every line boundary, and not at its lines,
which end at newlines only. The lines of an indented text are the indented lines of the text. A
line without blanks at its end gets its margin once, at its front, exactly when no boundary stands
inside it.
-/

namespace Interpose.Text

/-! ## Pieces -/

theorem isBlank_of_isBoundary {c : Char} (h : isBoundary c = true) : isBlank c = true := by
  simp only [isBoundary, Bool.or_eq_true, decide_eq_true_eq] at h
  rcases h with ((((((((rfl | rfl) | rfl) | rfl) | rfl) | rfl) | rfl) | rfl) | rfl) | rfl <;> decide

theorem pieces_ne_nil {cs : List Char} (h : cs ≠ []) : pieces cs ≠ [] := by
  intro hnil
  have hflat := flatten_pieces cs
  rw [hnil] at hflat
  exact h hflat.symm

theorem pieces_nil : pieces [] = [] := rfl

/-- A carriage return and the newline behind it are one boundary. -/
theorem pieces_double (cs : List Char) :
    pieces ('\r' :: '\n' :: cs) = ['\r', '\n'] :: pieces cs := rfl

/-- A character that does not begin a double boundary. -/
theorem pieces_cons {c : Char} {cs : List Char} (h : c = '\r' → cs.head? ≠ some '\n') :
    pieces (c :: cs) = if isBoundary c then [c] :: pieces cs
      else match pieces cs with
        | [] => [[c]]
        | piece :: rest => (c :: piece) :: rest := by
  conv => lhs; unfold pieces
  split
  · rename_i heq
    cases heq
  · rename_i heq
    obtain ⟨rfl, rfl⟩ := List.cons.inj heq
    exact absurd rfl (h rfl)
  · rename_i heq
    obtain ⟨rfl, rfl⟩ := List.cons.inj heq
    rfl

/-- Cutting starts anew behind a boundary that is not the first half of a double one. -/
theorem pieces_append_of_boundary {c : Char} (hc : isBoundary c = true) {rest : List Char}
    (hrest : c = '\r' → rest.head? ≠ some '\n') (front : List Char) :
    pieces (front ++ c :: rest) = pieces (front ++ [c]) ++ pieces rest := by
  have hsingle : pieces [c] = [[c]] := by
    rw [pieces_cons (by simp), if_pos hc, pieces_nil]
  induction front using pieces.induct with
  | case1 =>
    rw [List.nil_append, List.nil_append, hsingle, pieces_cons hrest, if_pos hc,
      List.singleton_append]
  | case2 cs ih => simp only [List.cons_append, pieces_double, ih]
  | case3 d cs hd hboundary ih =>
    by_cases hhalf : d = '\r' ∧ cs = [] ∧ c = '\n'
    · obtain ⟨rfl, rfl, rfl⟩ := hhalf
      simp only [List.cons_append, List.nil_append, pieces_double, pieces_nil]
    · have hfirst : ∀ more, d = '\r' → (cs ++ c :: more).head? ≠ some '\n' := by
        intro more hreturn hhead
        cases cs with
        | nil => exact hhalf ⟨hreturn, rfl, Option.some.inj hhead⟩
        | cons e cs => exact hd cs hreturn (by rw [Option.some.inj hhead])
      rw [List.cons_append, pieces_cons (hfirst rest), List.cons_append, pieces_cons (hfirst []),
        if_pos hboundary, if_pos hboundary, ih, List.cons_append]
  | case4 d cs hd hboundary _ ih
  | case5 d cs hd hboundary _ _ _ ih =>
    have hreturn : ∀ more : List Char, d = '\r' → more.head? ≠ some '\n' := by
      rintro _ rfl
      exact absurd rfl hboundary
    have hne : cs ++ [c] ≠ [] := by simp
    obtain ⟨piece, more, hpieces⟩ := List.exists_cons_of_ne_nil (pieces_ne_nil hne)
    rw [List.cons_append, pieces_cons (hreturn _), List.cons_append, pieces_cons (hreturn _),
      if_neg hboundary, if_neg hboundary, ih, hpieces, List.cons_append]
    rfl

/-- A text without boundaries is one piece. -/
theorem pieces_of_notBoundary {cs : List Char} (hne : cs ≠ [])
    (h : ∀ c ∈ cs, isBoundary c = false) : pieces cs = [cs] := by
  induction cs with
  | nil => exact absurd rfl hne
  | cons c cs ih =>
    obtain ⟨hc, hcs⟩ := List.forall_mem_cons.mp h
    have hreturn : c = '\r' → cs.head? ≠ some '\n' := by
      rintro rfl
      exact absurd hc (by decide)
    rw [pieces_cons hreturn, if_neg (by simp [hc])]
    cases cs with
    | nil => rw [pieces_nil]
    | cons d cs => rw [ih (by simp) hcs]

/-- A newline at the end of a line goes on the line's last piece, or is a piece of its own. -/
theorem exists_pieces_concat_newline {line : List Char} (h : '\n' ∉ line) :
    ∃ before last, pieces line = before ++ (if last = [] then [] else [last]) ∧
      pieces (line ++ ['\n']) = before ++ [last ++ ['\n']] := by
  have hnewline : pieces ['\n'] = [['\n']] := by
    rw [pieces_cons (by simp), if_pos (by decide), pieces_nil]
  induction line with
  | nil => exact ⟨[], [], by simp [pieces_nil], hnewline⟩
  | cons c line ih =>
    obtain ⟨hc, hline⟩ : '\n' ≠ c ∧ '\n' ∉ line := by simpa using h
    obtain ⟨before, last, hpieces, hended⟩ := ih hline
    have hhead : line.head? ≠ some '\n' := fun hhead => hline (List.mem_of_head? hhead)
    have hcons := pieces_cons (fun _ : c = '\r' => hhead)
    by_cases hhalf : c = '\r' ∧ line = []
    · obtain ⟨rfl, rfl⟩ := hhalf
      exact ⟨[], ['\r'], rfl, rfl⟩
    · have hreturn : c = '\r' → (line ++ ['\n']).head? ≠ some '\n' := by
        intro hreturn hnewline
        cases line with
        | nil => exact hhalf ⟨hreturn, rfl⟩
        | cons d line => exact hhead hnewline
      have hended' := pieces_cons hreturn
      by_cases hboundary : isBoundary c = true
      · refine ⟨[c] :: before, last, ?_, ?_⟩
        · rw [hcons, if_pos hboundary, hpieces, List.cons_append]
        · rw [List.cons_append, hended', if_pos hboundary, hended, List.cons_append]
      · rw [if_neg hboundary, hpieces] at hcons
        rw [if_neg hboundary, hended] at hended'
        cases before with
        | nil =>
          refine ⟨[], c :: last, ?_, hended'⟩
          rw [hcons]
          by_cases hlast : last = []
          · simp [hlast]
          · simp [hlast]
        | cons piece before => exact ⟨(c :: piece) :: before, last, hcons, hended'⟩

/-! ## Margins -/

/-- A part of a text under a margin. A blank part stays as it is. -/
def shifted (margin part : List Char) : List Char :=
  if isBlankLine part then part else margin ++ part

variable {margin : List Char}

theorem addMargin_append_of_boundary {c : Char} (hc : isBoundary c = true) {rest : List Char}
    (hrest : c = '\r' → rest.head? ≠ some '\n') (front : List Char) :
    addMargin margin (front ++ c :: rest) =
      addMargin margin (front ++ [c]) ++ addMargin margin rest := by
  rw [addMargin, pieces_append_of_boundary hc hrest, List.map_append, List.flatten_append]
  rfl

theorem addMargin_of_notBoundary {cs : List Char} (h : ∀ c ∈ cs, isBoundary c = false) :
    addMargin margin cs = shifted margin cs := by
  by_cases hne : cs = []
  · subst hne
    rfl
  · rw [addMargin, pieces_of_notBoundary hne h, List.map_singleton, List.flatten_singleton]
    rfl

/-- A line is indented alike with the newline that ends it and without. -/
theorem addMargin_concat_newline {line : List Char} (h : '\n' ∉ line) :
    addMargin margin (line ++ ['\n']) = addMargin margin line ++ ['\n'] := by
  obtain ⟨before, last, hpieces, hended⟩ := exists_pieces_concat_newline h
  have hblank : isBlankLine (last ++ ['\n']) = isBlankLine last := by
    rw [isBlankLine_append]
    exact Bool.and_true _
  have hlast : shifted margin (last ++ ['\n']) = shifted margin last ++ ['\n'] := by
    unfold shifted
    rw [hblank]
    by_cases hb : isBlankLine last = true
    · rw [if_pos hb, if_pos hb]
    · rw [if_neg hb, if_neg hb, List.append_assoc]
  have hempty : ((if last = [] then [] else [last]).map (shifted margin)).flatten =
      shifted margin last := by
    by_cases hnil : last = []
    · rw [if_pos hnil, hnil]
      rfl
    · rw [if_neg hnil, List.map_singleton, List.flatten_singleton]
  change ((pieces (line ++ ['\n'])).map (shifted margin)).flatten =
    ((pieces line).map (shifted margin)).flatten ++ ['\n']
  rw [hpieces, hended, List.map_append, List.map_append, List.flatten_append, List.flatten_append,
    hempty, List.map_singleton, List.flatten_singleton, hlast, List.append_assoc]

/-- Every character of an indented text is one of the text or of the margin. -/
theorem mem_addMargin {cs : List Char} {c : Char} (h : c ∈ addMargin margin cs) :
    c ∈ margin ∨ c ∈ cs := by
  obtain ⟨part, hpart, hc⟩ := List.mem_flatten.mp h
  obtain ⟨piece, hpiece, rfl⟩ := List.mem_map.mp hpart
  have hcs : ∀ d ∈ piece, d ∈ cs := by
    intro d hd
    rw [← flatten_pieces cs]
    exact List.mem_flatten_of_mem hpiece hd
  split at hc
  · exact .inr (hcs c hc)
  · rcases List.mem_append.mp hc with hmargin | hin
    · exact .inl hmargin
    · exact .inr (hcs c hin)

/-! ## Lines -/

/-- Lines are indented one by one. -/
theorem addMargin_joinLines {lines : List (List Char)} (h : ∀ line ∈ lines, '\n' ∉ line) :
    addMargin margin (joinLines lines) = joinLines (lines.map (addMargin margin)) := by
  induction lines with
  | nil => rfl
  | cons line lines ih =>
    obtain ⟨hline, hrest⟩ := List.forall_mem_cons.mp h
    cases lines with
    | nil => simp
    | cons next lines =>
      rw [joinLines_cons_cons, addMargin_append_of_boundary (by decide) (by simp),
        addMargin_concat_newline hline, ih hrest, List.append_assoc, List.singleton_append]
      simp only [List.map_cons, joinLines_cons_cons]

/-- The lines of an indented text are the indented lines of the text. -/
theorem splitLines_addMargin (hmargin : '\n' ∉ margin) (cs : List Char) :
    splitLines (addMargin margin cs) = (splitLines cs).map (addMargin margin) := by
  have hlines : ∀ line ∈ splitLines cs, '\n' ∉ line := fun _ => notMem_of_mem_splitLines
  have hindented : ∀ line ∈ (splitLines cs).map (addMargin margin), '\n' ∉ line := by
    rw [List.forall_mem_map]
    intro line hmem hnewline
    rcases mem_addMargin hnewline with hin | hin
    · exact hmargin hin
    · exact hlines line hmem hin
  have hjoined : addMargin margin (joinLines (splitLines cs)) =
      joinLines ((splitLines cs).map (addMargin margin)) := addMargin_joinLines hlines
  rw [joinLines_splitLines] at hjoined
  rw [hjoined, splitLines_joinLines (by simp) hindented]

/-! ## Boundaries inside lines -/

/-- A text with a boundary goes on without one behind its last boundary. -/
theorem exists_last_boundary {cs : List Char} (h : ∃ c ∈ cs, isBoundary c = true) :
    ∃ front c rest, cs = front ++ c :: rest ∧ isBoundary c = true ∧
      ∀ d ∈ rest, isBoundary d = false := by
  induction cs with
  | nil => simp at h
  | cons c cs ih =>
    by_cases hlater : ∃ d ∈ cs, isBoundary d = true
    · obtain ⟨front, d, rest, rfl, hd, hrest⟩ := ih hlater
      exact ⟨c :: front, d, rest, rfl, hd, hrest⟩
    · refine ⟨[], c, cs, rfl, ?_, fun d hd => ?_⟩
      · obtain ⟨d, hmem, hd⟩ := h
        rcases List.mem_cons.mp hmem with rfl | hmem
        · exact hd
        · exact absurd ⟨d, hmem, hd⟩ hlater
      · rw [← Bool.not_eq_true]
        exact fun hboundary => hlater ⟨d, hd, hboundary⟩

/-- Text follows every boundary of a line without blanks at its end. -/
theorem not_blank_of_trimEnd {front rest : List Char} {c : Char} (hc : isBoundary c = true)
    (h : trimEnd (front ++ c :: rest) = front ++ c :: rest) : isBlankLine rest = false := by
  rw [← Bool.not_eq_true]
  intro hblank
  rw [trimEnd_eq_rdropWhile, List.rdropWhile_eq_self_iff] at h
  have hne : front ++ c :: rest ≠ [] := by simp
  have hmem : (front ++ c :: rest).getLast hne ∈ c :: rest := by
    rw [List.getLast_append_of_ne_nil (by simp) (by simp)]
    exact List.getLast_mem _
  refine h hne ?_
  rcases List.mem_cons.mp hmem with heq | hin
  · rw [heq]
    exact isBlank_of_isBoundary hc
  · exact List.all_eq_true.mp hblank _ hin

/-- A line without blanks at its end gets a margin at its front, and nothing else, exactly when it
holds no boundary. -/
theorem addMargin_eq_shifted_iff (hmargin : ∃ d ∈ margin.getLast?, isBoundary d = false)
    {line : List Char} (hnewline : '\n' ∉ line) (htrim : trimEnd line = line) :
    addMargin margin line = shifted margin line ↔ ∀ c ∈ line, isBoundary c = false := by
  constructor
  · intro hline c hmem
    rw [← Bool.not_eq_true]
    intro hc
    obtain ⟨front, d, rest, rfl, hd, hrest⟩ := exists_last_boundary ⟨c, hmem, hc⟩
    have htext := not_blank_of_trimEnd hd htrim
    have hblank : isBlankLine (front ++ d :: rest) = false := by
      have hparts : front ++ d :: rest = (front ++ [d]) ++ rest := by simp
      rw [hparts, isBlankLine_append, htext, Bool.and_false]
    have hhead : d = '\r' → rest.head? ≠ some '\n' := by
      intro _ hhead
      exact hnewline (List.mem_append_right _ (List.mem_cons_of_mem _ (List.mem_of_head? hhead)))
    rw [addMargin_append_of_boundary hd hhead, addMargin_of_notBoundary hrest, shifted,
      if_neg (by simp [htext]), shifted, if_neg (by simp [hblank])] at hline
    -- Both sides end in the text behind the boundary. Before it stands the margin on one side and
    -- the boundary on the other.
    have hfront : addMargin margin (front ++ [d]) ++ margin = margin ++ (front ++ [d]) := by
      have hwhole : addMargin margin (front ++ [d]) ++ margin ++ rest =
          margin ++ (front ++ [d]) ++ rest := by simpa using hline
      exact List.append_cancel_right hwhole
    obtain ⟨e, he, hplain⟩ := hmargin
    have hlast := congrArg List.getLast? hfront
    rw [List.getLast?_append, Option.mem_def.mp he, ← List.append_assoc,
      List.getLast?_concat] at hlast
    obtain rfl : e = d := Option.some.inj hlast
    simp [hd] at hplain
  · exact fun h => addMargin_of_notBoundary h

/-- The lines of a text get a margin at their fronts, and nothing else, exactly when newlines are
the only boundaries of the text. -/
theorem splitLines_addMargin_eq_iff (hnewline : '\n' ∉ margin)
    (hmargin : ∃ d ∈ margin.getLast?, isBoundary d = false) {cs : List Char}
    (htrim : ∀ line ∈ splitLines cs, trimEnd line = line) :
    splitLines (addMargin margin cs) = (splitLines cs).map (shifted margin) ↔
      ∀ c ∈ cs, isBoundary c = true → c = '\n' := by
  rw [splitLines_addMargin hnewline, List.map_inj_left]
  have hline : ∀ line ∈ splitLines cs, (addMargin margin line = shifted margin line ↔
      ∀ c ∈ line, isBoundary c = false) := fun line hmem =>
    addMargin_eq_shifted_iff hmargin (notMem_of_mem_splitLines hmem) (htrim line hmem)
  constructor
  · intro h c hmem hc
    by_contra hne
    have hword : [c] <:+: joinLines (splitLines cs) := by
      rw [joinLines_splitLines]
      exact (List.singleton_infix_iff c cs).mpr hmem
    obtain ⟨line, hin, hfound⟩ := exists_infix_of_infix_joinLines (by simpa using Ne.symm hne)
      (splitLines_ne_nil cs) hword
    have hplain := (hline line hin).mp (h line hin) c ((List.singleton_infix_iff c line).mp hfound)
    simp [hc] at hplain
  · intro h line hin
    refine (hline line hin).mpr fun c hmem => ?_
    rw [← Bool.not_eq_true]
    intro hc
    have hfound := infix_joinLines_of_mem hin
    rw [joinLines_splitLines] at hfound
    obtain rfl := h c (hfound.subset hmem) hc
    exact notMem_of_mem_splitLines hin hmem

end Interpose.Text
