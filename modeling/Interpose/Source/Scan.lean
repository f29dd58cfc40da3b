import Interpose.Source.Lexeme
import Interpose.Source.Place

/-!
# Scanning

A text is cut into gaps and tokens. A gap consists of spaces, tabs, form feeds, line ends and
comments; a comment runs from a number sign to the end of its line. `scan` returns the tokens
with their places and, where the text stops being one, the place of the first character that
begins no token.
-/

namespace Interpose.Source

/-- The characters that may stand between tokens. -/
def isSpace (c : Char) : Bool := c = ' ' || c = '\t' || c = '\x0c' || c = '\r' || c = '\n'

/-- Cut a text after the gap at its front. The flag tells whether a comment is open. -/
def splitGap : Bool → List Char → List Char × List Char
  | _, [] => ([], [])
  | true, c :: cs =>
    let (gap, rest) := splitGap (c ≠ '\n') cs
    (c :: gap, rest)
  | false, c :: cs =>
    if isSpace c ∨ c = '#' then
      let (gap, rest) := splitGap (c = '#') cs
      (c :: gap, rest)
    else ([], c :: cs)

/-- Nothing is lost by cutting off a gap. -/
theorem splitGap_append (comment : Bool) (cs : List Char) :
    (splitGap comment cs).1 ++ (splitGap comment cs).2 = cs := by
  fun_induction splitGap comment cs <;> simp_all

theorem length_splitGap_le (comment : Bool) (cs : List Char) :
    (splitGap comment cs).2.length ≤ cs.length := by
  have h := congrArg List.length (splitGap_append comment cs)
  rw [List.length_append] at h
  omega

/-- A token and where it begins. -/
structure Placed where
  /-- The token. -/
  token : Token
  /-- The place of its first character. -/
  place : Place
  deriving DecidableEq, Repr

/-- What a text consists of. -/
structure Scan where
  /-- The tokens in the order of the text. -/
  tokens : List Placed
  /-- Where no token begins although the text goes on, if that happens. -/
  stuck : Option Place
  deriving DecidableEq, Repr

/-- Cut a text that begins at `place` into tokens. -/
def scanFrom (mode : Mode) (place : Place) (cs : List Char) : Scan :=
  let begin := place.after (splitGap false cs).1
  if (splitGap false cs).2 = [] then ⟨[], none⟩
  else
    match _h : munch mode (splitGap false cs).2 with
    | none => ⟨[], some begin⟩
    | some (token, rest) =>
      let more := scanFrom (.after token) (begin.after token.lexeme) rest
      ⟨⟨token, begin⟩ :: more.tokens, more.stuck⟩
termination_by cs.length
decreasing_by
  have := length_splitGap_le false cs
  have := length_lt_of_munch _h
  omega

/-- Cut a whole text into tokens. -/
def scan (text : List Char) : Scan := scanFrom .operator .start text

end Interpose.Source
