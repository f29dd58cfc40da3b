/-!
# Places in a text

A place counts the characters before it, the lines up to it and the columns on its line. Lines
end at newline characters only; lines and columns count from one.
-/

namespace Interpose.Source

/-- Where a character stands in a text. -/
structure Place where
  /-- The number of characters before it. -/
  offset : Nat
  /-- The number of its line. -/
  line : Nat
  /-- The number of its column. -/
  column : Nat
  deriving DecidableEq, Repr

namespace Place

/-- The place of a text's first character. -/
def start : Place := ⟨0, 1, 1⟩

/-- The place after a character. -/
def next (place : Place) (c : Char) : Place :=
  if c = '\n' then ⟨place.offset + 1, place.line + 1, 1⟩
  else ⟨place.offset + 1, place.line, place.column + 1⟩

/-- The place after a stretch of text. -/
def after (place : Place) (cs : List Char) : Place := cs.foldl next place

@[simp] theorem after_nil (place : Place) : place.after [] = place := rfl

@[simp] theorem after_append (place : Place) (as bs : List Char) :
    place.after (as ++ bs) = (place.after as).after bs := List.foldl_append

/-- The offset counts every character. -/
@[simp] theorem offset_after (place : Place) (cs : List Char) :
    (place.after cs).offset = place.offset + cs.length := by
  induction cs generalizing place with
  | nil => rfl
  | cons c cs ih =>
    have h : (place.next c).offset = place.offset + 1 := by unfold next; split <;> rfl
    change ((place.next c).after cs).offset = _
    rw [ih, h, List.length_cons]
    omega

/-- The line number counts the newlines. -/
@[simp] theorem line_after (place : Place) (cs : List Char) :
    (place.after cs).line = place.line + cs.count '\n' := by
  induction cs generalizing place with
  | nil => rfl
  | cons c cs ih =>
    change ((place.next c).after cs).line = _
    rw [ih, List.count_cons]
    by_cases hc : c = '\n'
    · simp only [next, hc, if_true, beq_self_eq_true]
      omega
    · simp [next, hc]

end Place

end Interpose.Source
