import Interpose.Proofs.Source.Layout

/-!
# The pieces of a text

A text that is scanned to its end is a sequence of pieces: blanks and comments, which say nothing,
and the lexemes of tokens. The tokens stand at the places of their pieces.
-/

namespace Interpose.Source

/-- A text that is ignored: blanks, or a comment up to the end of its line. -/
def Ignored (cs : List Char) : Prop :=
  (cs ≠ [] ∧ cs.all isSpace) ∨ ∃ comment, cs = '#' :: comment ∧ '\n' ∉ comment

/-- A token whose text is one of its terminal's lexemes. A body ends at the first fence. -/
def Token.IsLexeme : Token → Prop
  | .word _ => True
  | .mark _ => True
  | .name text => isName text.toList
  | .quoted text => IsQuoted text.toList
  | .number text => IsNumber text.toList
  | .dots count => 0 < count
  | .body text => ¬ fence <:+: text.toList ++ fence.dropLast

/-- A piece of a text. -/
inductive Piece where
  /-- Blanks or a comment. -/
  | ignored (text : List Char)
  /-- The text of a token. -/
  | lexeme (token : Token)

namespace Piece

/-- The text of a piece. -/
def text : Piece → List Char
  | .ignored cs => cs
  | .lexeme token => token.lexeme

/-- A piece is a lexeme or may be ignored. -/
def Lexical : Piece → Prop
  | .ignored cs => Ignored cs
  | .lexeme token => token.IsLexeme

/-- The tokens among pieces that begin at a place, with their places. -/
def placed : Place → List Piece → List Placed
  | _, [] => []
  | place, .ignored cs :: pieces => placed (place.after cs) pieces
  | place, .lexeme token :: pieces => ⟨token, place⟩ :: placed (place.after token.lexeme) pieces

/-- Pieces that are ignored only move the ones after them. -/
theorem placed_ignored (place : Place) (texts : List (List Char)) (pieces : List Piece) :
    placed place (texts.map .ignored ++ pieces) = placed (place.after texts.flatten) pieces := by
  induction texts generalizing place with
  | nil => rfl
  | cons cs texts ih =>
    rw [List.map_cons, List.cons_append, placed, ih, List.flatten_cons, Place.after_append]

end Piece

/-! ## Gaps -/

/-- A gap consists of texts that are ignored, after the rest of the comment that is open. -/
theorem ignored_splitGap (comment : Bool) (cs : List Char) : ∃ (rest : List Char)
    (texts : List (List Char)), (splitGap comment cs).1 = rest ++ texts.flatten ∧ '\n' ∉ rest ∧
      (comment = false → rest = []) ∧ ∀ text ∈ texts, Ignored text := by
  fun_induction splitGap comment cs with
  | case1 => exact ⟨[], [], rfl, by simp, fun _ => rfl, by simp⟩
  | case2 c cs gap left heq ih =>
    obtain ⟨rest, texts, hgap, hrest, hopen, htexts⟩ := ih
    simp only [heq] at hgap
    by_cases hc : c = '\n'
    · -- The newline ends the comment and is a piece of its own.
      obtain rfl : rest = [] := hopen (by simp [hc])
      refine ⟨[], [c] :: texts, by simp [hgap], by simp, by simp, ?_⟩
      refine List.forall_mem_cons.mpr ⟨.inl ⟨by simp, ?_⟩, htexts⟩
      rw [hc]
      rfl
    · exact ⟨c :: rest, texts, by simp [hgap], by simp [Ne.symm hc, hrest], by simp, htexts⟩
  | case3 c cs hc gap left heq ih =>
    obtain ⟨rest, texts, hgap, hrest, hopen, htexts⟩ := ih
    simp only [heq] at hgap
    by_cases hsign : c = '#'
    · refine ⟨[], (c :: rest) :: texts, by simp [hgap], by simp, fun _ => rfl, ?_⟩
      exact List.forall_mem_cons.mpr ⟨.inr ⟨rest, by rw [hsign], hrest⟩, htexts⟩
    · obtain rfl : rest = [] := hopen (by simp [hsign])
      refine ⟨[], [c] :: texts, by simp [hgap], by simp, fun _ => rfl, ?_⟩
      refine List.forall_mem_cons.mpr ⟨.inl ⟨by simp, ?_⟩, htexts⟩
      simpa [hsign] using hc
  | case4 c cs hc => exact ⟨[], [], rfl, by simp, fun _ => rfl, by simp⟩

/-! ## Tokens -/

/-- A body ends at the first fence. -/
theorem fence_not_infix_append_of_untilFence {cs read rest : List Char}
    (h : untilFence cs = some (read, rest)) : ¬ fence <:+: read ++ fence.dropLast := by
  fun_induction untilFence cs generalizing read with
  | case1 => simp at h
  | case2 cs =>
    obtain ⟨rfl, _⟩ : [] = read ∧ _ := by simpa using h
    decide
  | case3 c cs hne ih =>
    simp only [Option.map_eq_some_iff, Prod.exists, Prod.mk.injEq] at h
    obtain ⟨r, s, hr, rfl, rfl⟩ := h
    rw [List.cons_append, List.infix_cons_iff]
    rintro (hfront | hinner)
    · -- A fence at the front would have ended the body there.
      have hread : r ++ fence.dropLast <+: cs := by
        rw [eq_append_of_untilFence hr, List.append_assoc]
        refine List.prefix_append_right_inj _ |>.mpr ?_
        exact (List.dropLast_prefix fence).trans (List.prefix_append _ _)
      obtain ⟨hc, htwo⟩ := List.cons_prefix_cons.mp hfront
      obtain ⟨tail, htail⟩ := htwo.trans hread
      exact hne tail hc.symm htail.symm
    · exact ih hr hinner

/-- The text of every token that is read is one of its terminal's lexemes. -/
theorem isLexeme_of_munch {mode : Mode} {cs rest : List Char} {token : Token}
    (h : munch mode cs = some (token, rest)) : token.IsLexeme := by
  have hlegible := legible_of_munch h
  cases token with
  | word keyword => trivial
  | mark mark => trivial
  | name text => exact hlegible.1
  | quoted text => exact hlegible
  | number text => exact hlegible
  | dots count => exact hlegible
  | body text =>
    -- No other token than a body begins with a fence.
    rw [lexeme_of_munch h] at h
    have hbody : munch .operator ((Token.body text).lexeme ++ rest) =
        (untilFence (text.toList ++ fence ++ rest)).map fun found =>
          (.body (String.ofList found.1), found.2) := rfl
    cases mode with
    | operator =>
      rw [hbody, Option.map_eq_some_iff] at h
      obtain ⟨⟨read, left⟩, hread, hpair⟩ := h
      obtain ⟨hread', rfl⟩ : String.ofList read = text ∧ left = rest := by simpa using hpair
      rw [← hread', Token.IsLexeme, String.toList_ofList]
      exact fence_not_infix_append_of_untilFence hread
    | operand =>
      have hnone : munch .operand ((Token.body text).lexeme ++ rest) = none := rfl
      simp [hnone] at h
    | source =>
      have hnone : munch .source ((Token.body text).lexeme ++ rest) = none := rfl
      simp [hnone] at h
    | sourceRest =>
      have hnone : munch .sourceRest ((Token.body text).lexeme ++ rest) = none := rfl
      simp [hnone] at h

/-! ## Texts -/

/-- A text that is scanned to its end is a sequence of pieces, and its tokens are those of the
pieces at their places. -/
theorem exists_pieces (mode : Mode) (place : Place) (cs : List Char)
    (h : (scanFrom mode place cs).stuck = none) : ∃ pieces : List Piece,
      cs = pieces.flatMap Piece.text ∧ (∀ piece ∈ pieces, piece.Lexical) ∧
      Piece.placed place pieces = (scanFrom mode place cs).tokens := by
  have hgap : ∀ cs, ∃ texts : List (List Char), (splitGap false cs).1 = texts.flatten ∧
      ∀ text ∈ texts, Ignored text := by
    intro cs
    obtain ⟨rest, texts, hsplit, _, hopen, htexts⟩ := ignored_splitGap false cs
    obtain rfl := hopen rfl
    exact ⟨texts, hsplit, htexts⟩
  have hflat : ∀ texts : List (List Char),
      (texts.map Piece.ignored).flatMap Piece.text = texts.flatten := by
    intro texts
    simp [List.flatMap_map, Piece.text, List.flatMap_id']
  fun_induction scanFrom mode place cs with
  | case1 mode place cs hend =>
    obtain ⟨texts, hsplit, htexts⟩ := hgap cs
    refine ⟨texts.map .ignored, ?_, by simpa [Piece.Lexical] using htexts, ?_⟩
    · have hwhole := splitGap_append false cs
      rw [hend, List.append_nil] at hwhole
      rw [hflat, ← hsplit, hwhole]
    · have hplaced := Piece.placed_ignored place texts []
      rw [List.append_nil] at hplaced
      exact hplaced
  | case2 mode place cs begin hne hnone => simp at h
  | case3 mode place cs begin hne token rest hmunch more ih =>
    obtain ⟨texts, hsplit, htexts⟩ := hgap cs
    obtain ⟨pieces, hrest, hlexical, hplaced⟩ := ih h
    refine ⟨texts.map .ignored ++ .lexeme token :: pieces, ?_, ?_, ?_⟩
    · rw [List.flatMap_append, hflat, List.flatMap_cons, ← hrest, ← hsplit, Piece.text,
        ← lexeme_of_munch hmunch, splitGap_append]
    · rw [List.forall_mem_append, List.forall_mem_cons]
      exact ⟨by simpa [Piece.Lexical] using htexts, isLexeme_of_munch hmunch, hlexical⟩
    · rw [Piece.placed_ignored, Piece.placed, ← hsplit]
      exact congrArg (List.cons _) hplaced

end Interpose.Source
