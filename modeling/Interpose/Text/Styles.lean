/-!
# Style sequences

The sequences of characters that set the style of a terminal: an escape, an opening bracket, some
parameters and a letter. A text that is not for a terminal is printed without them.
-/

namespace Interpose.Text

/-- Whether a character can stand among the parameters of a style sequence. -/
def isStyleParameter (c : Char) : Bool := c.isDigit || c == ';' || c == '?'

/-- What follows the style sequence that a text begins with. -/
def afterStyle? : List Char → Option (List Char)
  | '\x1b' :: '[' :: cs =>
    match cs.dropWhile isStyleParameter with
    | c :: rest => if c.isAlpha then some rest else none
    | [] => none
  | _ => none

/-- A style sequence is not empty. -/
theorem length_afterStyle? {cs rest : List Char} (h : afterStyle? cs = some rest) :
    rest.length < cs.length := by
  unfold afterStyle? at h
  split at h
  · rename_i tail
    have hd := (List.dropWhile_suffix isStyleParameter (l := tail)).length_le
    split at h
    · rename_i hcons
      rw [hcons] at hd
      split at h
      · cases h
        simp only [List.length_cons] at hd ⊢
        omega
      · cases h
    · cases h
  · cases h

/-- A text without its style sequences. -/
def withoutStyles : List Char → List Char
  | [] => []
  | c :: cs =>
    match _h : afterStyle? (c :: cs) with
    | some rest => withoutStyles rest
    | none => c :: withoutStyles cs
  termination_by cs => cs.length
  decreasing_by
    · exact length_afterStyle? (by assumption)
    · simp

end Interpose.Text
