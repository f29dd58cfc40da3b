import Interpose.Proofs.Text.Lines
import Interpose.Source.Context
import Interpose.Source.Place

/-!
# The context of a place and its line

A place is found by what stands before it in a text: the newlines there count its line, and what
follows the last of them counts its column. The context of the place is the part of that line within
some characters on either side, so it can be told from the line and the column alone.
-/

namespace Interpose.Source

open Text

/-! ## The last line of a text -/

/-- What follows the last newline of a text. -/
def lastLine (cs : List Char) : List Char := cs.rtakeWhile (· ≠ '\n')

/-- What stands before the first newline of a text. -/
def firstLine (cs : List Char) : List Char := cs.takeWhile (· ≠ '\n')

theorem notMem_lastLine (cs : List Char) : '\n' ∉ lastLine cs := by
  intro hnewline
  simpa using List.mem_rtakeWhile_imp hnewline

/-- A text is a single line, or its last line follows a newline. -/
theorem lastLine_cases (cs : List Char) :
    lastLine cs = cs ∨ ∃ above, cs = above ++ '\n' :: lastLine cs := by
  have hsplit : cs.rdropWhile (· ≠ '\n') ++ lastLine cs = cs := List.rdropWhile_append_rtakeWhile
  by_cases hnil : cs.rdropWhile (· ≠ '\n') = []
  · rw [hnil, List.nil_append] at hsplit
    exact .inl hsplit
  · have hlast := List.rdropWhile_last_not (· ≠ '\n') cs hnil
    have hnewline : (cs.rdropWhile (· ≠ '\n')).getLast hnil = '\n' := by simpa using hlast
    have hconcat := List.dropLast_append_getLast hnil
    rw [hnewline] at hconcat
    rw [← hconcat, List.append_assoc] at hsplit
    exact .inr ⟨_, hsplit.symm⟩

/-- The last line of what is left of a text is what is left of its last line. -/
theorem lastLine_drop (cs : List Char) (count : Nat) :
    lastLine (cs.drop count) =
      (lastLine cs).drop ((lastLine cs).length - (cs.length - count)) := by
  have hlength : (lastLine cs).length = (cs.reverse.takeWhile (· ≠ '\n')).length := by
    rw [lastLine, List.rtakeWhile, List.length_reverse]
  rw [hlength, lastLine, lastLine, List.rtakeWhile, List.rtakeWhile, List.reverse_drop,
    ← List.take_takeWhile, List.reverse_take]

theorem head?_splitLines (cs : List Char) : (splitLines cs).head? = some (firstLine cs) := by
  induction cs with
  | nil => rfl
  | cons c cs ih =>
    rw [splitLines_cons, firstLine]
    by_cases hc : c = '\n'
    · simp [hc]
    · simp [hc, List.head?_modifyHead, ih, firstLine]

theorem getLast?_splitLines (cs : List Char) : (splitLines cs).getLast? = some (lastLine cs) := by
  have hline := splitLines_of_notMem (notMem_lastLine cs)
  rcases lastLine_cases cs with hsame | ⟨above, habove⟩
  · rw [hsame] at hline
    rw [hline, hsame]
    rfl
  · have hlines : splitLines cs = splitLines above ++ [lastLine cs] := by
      rw [← hline, ← splitLines_append, ← habove]
    rw [hlines, List.getLast?_concat]

/-- There is one line more than there are newlines. -/
theorem length_splitLines (cs : List Char) : (splitLines cs).length = cs.count '\n' + 1 := by
  induction cs with
  | nil => rfl
  | cons c cs ih =>
    rw [splitLines_cons]
    by_cases hc : c = '\n'
    · simp [hc, ih]
    · simp [hc, ih]

/-! ## The line of a place -/

/-- The newlines before a place count the lines above it. -/
theorem getElem?_splitLines (front rest : List Char) :
    (splitLines (front ++ rest))[front.count '\n']? = some (lastLine front ++ firstLine rest) := by
  have hfirst : ∀ left, '\n' ∉ left →
      (splitLines (left ++ rest))[0]? = some (left ++ firstLine rest) := by
    intro left hleft
    rw [← List.head?_eq_getElem?, head?_splitLines, firstLine, List.takeWhile_append_of_pos]
    · rfl
    · intro c hc
      simp only [ne_eq, decide_eq_true_eq]
      rintro rfl
      exact hleft hc
  have hnewline := notMem_lastLine front
  rcases lastLine_cases front with hsame | ⟨above, habove⟩
  · rw [hsame] at hnewline ⊢
    rw [List.count_eq_zero_of_not_mem hnewline]
    exact hfirst front hnewline
  · have hcount : front.count '\n' = (splitLines above).length := by
      rw [habove, List.count_append, List.count_cons_self, List.count_eq_zero_of_not_mem hnewline,
        length_splitLines]
    have htext : front ++ rest = above ++ '\n' :: (lastLine front ++ rest) := by
      nth_rewrite 1 [habove]
      rw [List.append_assoc, List.cons_append]
    rw [htext, splitLines_append, hcount, List.getElem?_append_right (Nat.le_refl _), Nat.sub_self]
    exact hfirst _ hnewline

/-- The characters before a place on its line count its column. -/
theorem column_after (front : List Char) :
    (Place.start.after front).column = (lastLine front).length + 1 := by
  have hstay : ∀ (place : Place) (left : List Char), '\n' ∉ left →
      (place.after left).column = place.column + left.length := by
    intro place left hleft
    induction left generalizing place with
    | nil => rfl
    | cons c left ih =>
      obtain ⟨hc, hleft⟩ : '\n' ≠ c ∧ '\n' ∉ left := by simpa using hleft
      have hnext : (place.next c).column = place.column + 1 := by simp [Place.next, Ne.symm hc]
      change ((place.next c).after left).column = _
      rw [ih _ hleft, hnext, List.length_cons]
      omega
  have hnewline := notMem_lastLine front
  rcases lastLine_cases front with hsame | ⟨above, habove⟩
  · rw [hsame] at hnewline ⊢
    rw [hstay _ _ hnewline, Place.start, Nat.add_comm]
  · have hstart : ((Place.start.after above).next '\n').column = 1 := by simp [Place.next]
    have hafter : Place.start.after front =
        ((Place.start.after above).next '\n').after (lastLine front) := by
      nth_rewrite 1 [habove]
      rw [Place.after_append]
      rfl
    rw [hafter, hstay _ _ hnewline, hstart, Nat.add_comm]

/-! ## The context -/

/-- What the context shows before a place is the end of what stands before it on its line. -/
theorem contextBefore_append (front rest : List Char) :
    contextBefore (front ++ rest) front.length =
      (lastLine front).drop ((lastLine front).length - contextSpan) := by
  have hlength : (lastLine front).length ≤ front.length :=
    (List.rtakeWhile_suffix (· ≠ '\n') front).length_le
  rw [contextBefore, List.take_left, getLast?_splitLines, Option.getD_some, lastLine_drop]
  congr 1
  omega

/-- What the context shows from a place on is the beginning of the rest of its line. -/
theorem contextAfter_append (front rest : List Char) :
    contextAfter (front ++ rest) front.length = (firstLine rest).take contextSpan := by
  rw [contextAfter, List.drop_left, firstLine, List.take_takeWhile]

/-- The part of a line within some characters on either side of a position. -/
def shownPart (line : List Char) (position : Nat) : List Char :=
  (line.take (position + contextSpan)).drop (position - contextSpan)

/-- The context of a place shows the part of its line around the place. -/
theorem contextBefore_append_contextAfter (front rest : List Char) :
    contextBefore (front ++ rest) front.length ++ contextAfter (front ++ rest) front.length =
      shownPart (lastLine front ++ firstLine rest) (lastLine front).length := by
  rw [contextBefore_append, contextAfter_append, shownPart, List.take_length_add_append,
    List.drop_append_of_le_length (Nat.sub_le _ _)]

end Interpose.Source
