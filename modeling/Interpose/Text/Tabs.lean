/-!
# Tab stops

The width of a text once each tab is widened to the next multiple of eight. A newline and a
carriage return begin the count of columns again and count as one character each.
-/

namespace Interpose.Text

/-- The distance from one tab stop to the next. -/
def tabStop : Nat := 8

/-- The spaces that a tab stands for when it follows `column` characters. -/
def tabSpaces (column : Nat) : Nat := tabStop - column % tabStop

/-- The number of characters of a text after its tabs are widened, when it begins after `column`
characters of its line. -/
def widenedLength (column : Nat) : List Char → Nat
  | [] => 0
  | c :: cs =>
    if c = '\t' then tabSpaces column + widenedLength (column + tabSpaces column) cs
    else if c = '\n' ∨ c = '\r' then 1 + widenedLength 0 cs
    else 1 + widenedLength (column + 1) cs

/-- A text without tabs keeps its length. -/
theorem widenedLength_eq_length {cs : List Char} (h : '\t' ∉ cs) (column : Nat) :
    widenedLength column cs = cs.length := by
  induction cs generalizing column with
  | nil => rfl
  | cons c cs ih =>
    have hc : c ≠ '\t' := fun e => h (by simp [e])
    have hs : '\t' ∉ cs := fun m => h (by simp [m])
    simp only [widenedLength, hc, if_false, List.length_cons]
    split <;> rw [ih hs] <;> omega

end Interpose.Text
