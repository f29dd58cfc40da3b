/-!
# Lines

Two ways of cutting a text. `splitLines` cuts at newline characters and drops them, so joining
the lines with newlines gives the text back. `pieces` cuts after every line boundary, of which
the newline is only one, and keeps the boundary, so the pieces concatenate to the text.
-/

namespace Interpose.Text

/-- No part of a text that is cut at a character holds the character. -/
theorem notMem_of_mem_splitOn {separator : Char} {cs part : List Char}
    (h : part ∈ cs.splitOn separator) : separator ∉ part := by
  induction cs generalizing part with
  | nil =>
    obtain rfl : part = [] := by simpa using h
    exact List.not_mem_nil
  | cons c cs ih =>
    rw [List.splitOn_cons_eq_if_modifyHead] at h
    by_cases hc : c = separator
    · rw [if_pos (by simpa using hc)] at h
      rcases List.mem_cons.mp h with rfl | hmem
      · exact List.not_mem_nil
      · exact ih hmem
    · rw [if_neg (by simpa using hc)] at h
      obtain ⟨first, rest, hparts⟩ := List.exists_cons_of_ne_nil (List.splitOn_ne_nil separator cs)
      rw [hparts] at h ih
      rcases List.mem_cons.mp h with rfl | hmem
      · simpa [Ne.symm hc] using ih List.mem_cons_self
      · exact ih (List.mem_cons_of_mem _ hmem)

/-- Cut a text at its newlines. A text without one is a single line. -/
def splitLines (cs : List Char) : List (List Char) := cs.splitOn '\n'

/-- Write lines one after the other with a newline between neighbours. -/
def joinLines (lines : List (List Char)) : List Char := ['\n'].intercalate lines

@[simp] theorem splitLines_nil : splitLines [] = [[]] := rfl

/-- The first character of a text begins its first line, or ends it. -/
theorem splitLines_cons (c : Char) (cs : List Char) : splitLines (c :: cs) =
    if c = '\n' then [] :: splitLines cs else (splitLines cs).modifyHead (c :: ·) := by
  rw [splitLines, List.splitOn_cons_eq_if_modifyHead]
  simp [splitLines]

@[simp] theorem splitLines_ne_nil (cs : List Char) : splitLines cs ≠ [] :=
  List.splitOn_ne_nil '\n' cs

@[simp] theorem joinLines_nil : joinLines [] = [] := rfl

@[simp] theorem joinLines_singleton (line : List Char) : joinLines [line] = line := by
  simp [joinLines]

theorem joinLines_cons_cons (line next : List Char) (lines : List (List Char)) :
    joinLines (line :: next :: lines) = line ++ '\n' :: joinLines (next :: lines) := by
  rw [joinLines, List.intercalate_cons_cons, List.append_assoc, List.singleton_append, joinLines]

/-- Nothing is lost by cutting a text into lines. -/
@[simp] theorem joinLines_splitLines (cs : List Char) : joinLines (splitLines cs) = cs :=
  List.intercalate_splitOn '\n'

/-- The characters that end a line when a text is indented. -/
def isBoundary (c : Char) : Bool :=
  c = '\n' || c = '\r' || c = '\x0b' || c = '\x0c' || c = '\x1c' || c = '\x1d' || c = '\x1e' ||
    c = '\x85' || c = '\u2028' || c = '\u2029'

/-- Cut a text after each line boundary; a carriage return and the newline that follows it are
one boundary. -/
def pieces : List Char → List (List Char)
  | [] => []
  | '\r' :: '\n' :: cs => ['\r', '\n'] :: pieces cs
  | c :: cs =>
    if isBoundary c then [c] :: pieces cs
    else
      match pieces cs with
      | [] => [[c]]
      | piece :: rest => (c :: piece) :: rest

/-- Nothing is lost by cutting a text into pieces. -/
@[simp] theorem flatten_pieces (cs : List Char) : (pieces cs).flatten = cs := by
  fun_induction pieces cs with
  | case1 => rfl
  | case2 cs ih => simp [ih]
  | case3 c cs _ hc ih => simp [ih]
  | case4 c cs _ hc hp ih => simp_all
  | case5 c cs _ hc piece rest hp ih => simp_all

/-- Every carriage return, with the newline after it if there is one, becomes a newline. -/
def unifyNewlines : List Char → List Char
  | [] => []
  | '\r' :: '\n' :: cs => '\n' :: unifyNewlines cs
  | c :: cs => (if c = '\r' then '\n' else c) :: unifyNewlines cs

/-- A text without carriage returns is left as it is. -/
theorem unifyNewlines_eq_self {cs : List Char} (h : '\r' ∉ cs) : unifyNewlines cs = cs := by
  fun_induction unifyNewlines cs with
  | case1 => rfl
  | case2 cs ih => simp at h
  | case3 c cs _ ih =>
    simp only [List.mem_cons, not_or] at h
    simp [Ne.symm h.1, ih h.2]

end Interpose.Text
