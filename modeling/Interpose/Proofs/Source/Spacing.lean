import Interpose.Proofs.Source.Lookahead

/-!
# Spacing between tokens

A text is cut at its tokens into the ignored text before each of them and the ignored text at the
end. Tokens that were read from a text are read again when what is ignored between them is spaced
out or exchanged, because nothing is put where tokens touch but a gap and nothing that parted two
tokens goes away.
-/

namespace Interpose.Source

/-- Ignored text that is complete: blanks, and comments with the ends of their lines. -/
inductive Spacing : List Char → Prop
  /-- Nothing. -/
  | nil : Spacing []
  /-- A blank first. -/
  | space {c : Char} {cs : List Char} (hc : isSpace c) (h : Spacing cs) : Spacing (c :: cs)
  /-- A comment first. -/
  | comment {text cs : List Char} (htext : '\n' ∉ text) (h : Spacing cs) :
      Spacing ('#' :: (text ++ '\n' :: cs))

/-- Ignored text at the end of a text, where a comment may stay open. -/
def Trailing (cs : List Char) : Prop :=
  Spacing cs ∨ ∃ spacing text, Spacing spacing ∧ '\n' ∉ text ∧ cs = spacing ++ '#' :: text

/-! ## Gaps -/

/-- A blank opens no comment. -/
theorem ne_sign_of_isSpace {c : Char} (h : isSpace c) : c ≠ '#' := by
  rintro rfl
  exact absurd h (by decide)

theorem splitGap_cons_space {c : Char} (hc : isSpace c) (cs : List Char) :
    splitGap false (c :: cs) = (c :: (splitGap false cs).1, (splitGap false cs).2) := by
  have hsign : decide (c = '#') = false := decide_eq_false (ne_sign_of_isSpace hc)
  rw [splitGap, if_pos (.inl hc), hsign]

theorem splitGap_cons_sign (cs : List Char) :
    splitGap false ('#' :: cs) = ('#' :: (splitGap true cs).1, (splitGap true cs).2) := by
  rw [splitGap, if_pos (.inr rfl)]
  rfl

theorem splitGap_cons_comment {c : Char} (hc : c ≠ '\n') (cs : List Char) :
    splitGap true (c :: cs) = (c :: (splitGap true cs).1, (splitGap true cs).2) := by
  have hline : decide (c ≠ '\n') = true := decide_eq_true hc
  rw [splitGap, hline]

/-- An open comment takes everything along up to the end of its line. -/
theorem splitGap_comment {text : List Char} (htext : '\n' ∉ text) (cs : List Char) :
    splitGap true (text ++ '\n' :: cs) =
      (text ++ '\n' :: (splitGap false cs).1, (splitGap false cs).2) := by
  induction text with
  | nil => rfl
  | cons c text ih =>
    obtain ⟨hc, htext⟩ : '\n' ≠ c ∧ '\n' ∉ text := by simpa using htext
    rw [List.cons_append, splitGap_cons_comment (Ne.symm hc), ih htext]
    rfl

namespace Spacing

variable {gap before after : List Char}

/-- Two runs of complete pieces are one. -/
theorem append (hbefore : Spacing before) (hafter : Spacing after) : Spacing (before ++ after) := by
  induction hbefore with
  | nil => exact hafter
  | space hc _ ih => exact .space hc ih
  | comment htext _ ih =>
    rw [List.cons_append, List.append_assoc, List.cons_append]
    exact .comment htext ih

/-- Complete pieces open a gap. -/
theorem opensGap_append (h : Spacing gap) (hne : gap ≠ []) (cs : List Char) :
    OpensGap (gap ++ cs) := by
  cases h with
  | nil => exact absurd rfl hne
  | space hc _ => exact .cons (.inl hc) _
  | comment _ _ => exact .cons (.inr rfl) _

/-- A gap ends no earlier than its complete pieces do. -/
theorem splitGap_append (h : Spacing gap) (cs : List Char) :
    splitGap false (gap ++ cs) = (gap ++ (splitGap false cs).1, (splitGap false cs).2) := by
  induction h with
  | nil => rfl
  | space hc _ ih =>
    rw [List.cons_append, splitGap_cons_space hc, ih]
    rfl
  | comment htext _ ih =>
    rw [List.cons_append, List.append_assoc, List.cons_append, splitGap_cons_sign,
      splitGap_comment htext, ih]
    simp

/-- What follows complete pieces of a gap that stays open to its end stays open too, whether or not
a comment is open before it. -/
theorem splitGap_eq_nil (h : Spacing gap) (comment : Bool) : (splitGap comment gap).2 = [] := by
  induction h generalizing comment with
  | nil => cases comment <;> rfl
  | @space c cs hc _ ih =>
    cases comment with
    | false =>
      rw [splitGap_cons_space hc]
      exact ih false
    | true => exact ih _
  | @comment text cs htext _ ih =>
    cases comment with
    | false =>
      rw [splitGap_cons_sign, splitGap_comment htext]
      exact ih false
    | true =>
      rw [splitGap_cons_comment (by decide), splitGap_comment htext]
      exact ih false

/-- What is ignored at the end of a text is ignored with complete pieces after it too. -/
theorem splitGap_append_eq_nil {comment : Bool} (h : Spacing gap)
    (hbefore : (splitGap comment before).2 = []) : (splitGap comment (before ++ gap)).2 = [] := by
  induction before generalizing comment with
  | nil => exact h.splitGap_eq_nil comment
  | cons c before ih =>
    rw [List.cons_append]
    cases comment with
    | true => exact ih hbefore
    | false =>
      by_cases hc : isSpace c ∨ c = '#'
      · rw [splitGap, if_pos hc] at hbefore ⊢
        exact ih hbefore
      · rw [splitGap, if_neg hc] at hbefore
        simp at hbefore

end Spacing

/-- What is cut off from a text as the gap at its front: it is complete when a token follows. -/
private structure CutOff (gap rest : List Char) : Prop where
  trailing : Trailing gap
  spacing : rest ≠ [] → Spacing gap

/-- A blank goes on with a gap that is cut off. -/
private theorem CutOff.space {c : Char} {gap rest : List Char} (hc : isSpace c)
    (h : CutOff gap rest) : CutOff (c :: gap) rest := by
  refine ⟨?_, fun hrest => .space hc (h.spacing hrest)⟩
  rcases h.trailing with hgap | ⟨spacing, text, hspacing, htext, rfl⟩
  · exact .inl (.space hc hgap)
  · exact .inr ⟨c :: spacing, text, .space hc hspacing, htext, rfl⟩

/-- A comment goes on with a gap that is cut off. -/
private theorem CutOff.comment {text gap rest : List Char} (htext : '\n' ∉ text)
    (h : CutOff gap rest) : CutOff ('#' :: (text ++ '\n' :: gap)) rest := by
  refine ⟨?_, fun hrest => .comment htext (h.spacing hrest)⟩
  rcases h.trailing with hgap | ⟨spacing, last, hspacing, hlast, rfl⟩
  · exact .inl (.comment htext hgap)
  · exact .inr ⟨'#' :: (text ++ '\n' :: spacing), last, .comment htext hspacing, hlast, by simp⟩

/-- A comment that stays open cuts off the end of a text. -/
private theorem CutOff.openComment {text : List Char} (htext : '\n' ∉ text) :
    CutOff ('#' :: text) [] :=
  ⟨.inr ⟨[], text, .nil, htext, rfl⟩, fun h => absurd rfl h⟩

/-- A comment that is open before a text stays open to the end or ends with its line. -/
private def CutOpen (gap rest : List Char) : Prop :=
  ∃ text, '\n' ∉ text ∧
    (gap = text ∧ rest = [] ∨ ∃ after, gap = text ++ '\n' :: after ∧ CutOff after rest)

/-- What is split off is a gap that is cut off. -/
private theorem cutOff_splitGap (cs : List Char) :
    CutOff (splitGap false cs).1 (splitGap false cs).2 ∧
      CutOpen (splitGap true cs).1 (splitGap true cs).2 := by
  induction cs with
  | nil => exact ⟨⟨.inl .nil, fun _ => .nil⟩, [], List.not_mem_nil, .inl ⟨rfl, rfl⟩⟩
  | cons c cs ih =>
    obtain ⟨hoff, text, htext, hopen⟩ := ih
    constructor
    · by_cases hspace : isSpace c
      · rw [splitGap_cons_space hspace]
        exact hoff.space hspace
      · by_cases hsign : c = '#'
        · rw [hsign, splitGap_cons_sign]
          rcases hopen with ⟨hgap, hrest⟩ | ⟨after, hgap, hafter⟩
          · rw [hgap, hrest]
            exact .openComment htext
          · rw [hgap]
            exact hafter.comment htext
        · rw [splitGap, if_neg (not_or.mpr ⟨hspace, hsign⟩)]
          exact ⟨.inl .nil, fun _ => .nil⟩
    · by_cases hc : c = '\n'
      · subst hc
        exact ⟨[], List.not_mem_nil, .inr ⟨_, rfl, hoff⟩⟩
      · rw [splitGap_cons_comment hc]
        refine ⟨c :: text, by simp [Ne.symm hc, htext], ?_⟩
        rcases hopen with ⟨hgap, hrest⟩ | ⟨after, hgap, hafter⟩
        · exact .inl ⟨congrArg (List.cons c) hgap, hrest⟩
        · exact .inr ⟨after, congrArg (List.cons c) hgap, hafter⟩

/-- The gap before a token is complete. -/
theorem spacing_of_splitGap {cs : List Char} (h : (splitGap false cs).2 ≠ []) :
    Spacing (splitGap false cs).1 := (cutOff_splitGap cs).1.spacing h

/-- A text in which nothing but a gap is found is ignored. -/
theorem trailing_of_splitGap {cs : List Char} (h : (splitGap false cs).2 = []) : Trailing cs := by
  have hwhole := splitGap_append false cs
  rw [h, List.append_nil] at hwhole
  rw [← hwhole]
  exact (cutOff_splitGap cs).1.trailing

/-- A gap before a text makes no difference to a machine. -/
theorem Feeds.spacing {State : Type} {step : State → Token → Option State} {mode : Mode}
    {gap cs : List Char} {state last : State} (hgap : Spacing gap)
    (h : Feeds step mode cs state last) : Feeds step mode (gap ++ cs) state last := by
  have hsplit : (splitGap false (gap ++ cs)).2 = (splitGap false cs).2 := by
    rw [hgap.splitGap_append]
  cases h with
  | done hdone => exact .done (hsplit.trans hdone)
  | next hmunch hstep hrest => exact .next (hsplit ▸ hmunch) hstep hrest

/-- What is left of complete pieces after some of them is complete. -/
theorem Spacing.of_append {before after : List Char} (hbefore : Spacing before)
    (h : Spacing (before ++ after)) : Spacing after := by
  have hsplit := hbefore.splitGap_append (after ++ ['x'])
  rw [← List.append_assoc, h.splitGap_append ['x']] at hsplit
  obtain ⟨hgap, hrest⟩ := Prod.mk.inj hsplit
  have hne : (splitGap false (after ++ ['x'])).2 ≠ [] := by
    rw [← hrest]
    decide
  have hspacing := spacing_of_splitGap hne
  have hafter : (splitGap false (after ++ ['x'])).1 = after := by
    have hnil : (splitGap false ['x']).1 = [] := rfl
    rw [hnil, List.append_nil] at hgap
    exact (List.append_cancel_left hgap).symm
  rwa [hafter] at hspacing

end Interpose.Source
