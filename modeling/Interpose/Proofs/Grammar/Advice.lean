import Interpose.Proofs.Grammar.Viable
import Interpose.Proofs.Source.Context

/-!
# The advice of a refused text

The span of a refused text counts the newlines before the refused character and the characters after
the last of them, while its advice is cut out of the text at the offset of that character. Both tell
of the same line: the advice is the part of that line around the column, and below it a caret.
-/

namespace Interpose

open Source Text

/-! ## Widened tabs -/

namespace Text

/-- A text with each tab widened to the next multiple of `stop` columns, when the text begins after
`column` characters of its line. A newline and a carriage return begin a line. -/
def expandTabs (stop column : Nat) : List Char → List Char
  | [] => []
  | c :: cs =>
    if c = '\t' then
      List.replicate (stop - column % stop) ' ' ++
        expandTabs stop (column + (stop - column % stop)) cs
    else c :: expandTabs stop (if c = '\n' ∨ c = '\r' then 0 else column + 1) cs

/-- The width of a text is what it has of characters once its tabs are widened. -/
theorem length_expandTabs (column : Nat) (cs : List Char) :
    (expandTabs tabStop column cs).length = widenedLength column cs := by
  induction cs generalizing column with
  | nil => rfl
  | cons c cs ih =>
    rw [expandTabs, widenedLength]
    by_cases htab : c = '\t'
    · rw [if_pos htab, if_pos htab, List.length_append, List.length_replicate, ih]
      rfl
    · rw [if_neg htab, if_neg htab, List.length_cons, ih]
      split <;> exact Nat.add_comm _ _

end Text

/-! ## The excerpt of a line -/

/-- The part of a line within some characters on either side of a position, and a caret below that
stands at the position once the tabs before it are widened. -/
def excerpt (span stop : Nat) (line : List Char) (position : Nat) : String :=
  let before := (line.take position).drop (position - span)
  let after := (line.drop position).take span
  String.ofList (before ++ after ++
    '\n' :: List.replicate (expandTabs stop 0 before).length ' ' ++ ['^'])

/-- The context of a place is the excerpt of its line at its column. -/
theorem context_append (front rest : List Char) :
    context (front ++ rest) front.length =
      excerpt contextSpan tabStop (lastLine front ++ firstLine rest) (lastLine front).length := by
  rw [context, excerpt, contextBefore_append, contextAfter_append, List.take_left, List.drop_left,
    length_expandTabs]

/-- The span and the advice of a refused text agree. The line of the span is a line of the text, its
column is the column of one of the characters of that line, and the advice is the excerpt of the
line there: up to forty characters before the column, up to forty from it on, and a caret below that
is indented by the width of those before it. -/
theorem help_of_parse {text : String} {span : Span} {help : String}
    (h : parse text = .error (.malformed span help)) :
    ∃ (line column : Nat) (source : List Char),
      span = ⟨some (line : Int), some (column : Int)⟩ ∧
      1 ≤ line ∧ line ≤ (splitLines text.toList).length ∧
      (splitLines text.toList)[line - 1]? = some source ∧
      1 ≤ column ∧ column - 1 < source.length ∧ help = excerpt 40 8 source (column - 1) := by
  obtain ⟨front, c, rest, htext, hc, rfl, rfl⟩ := exists_refused_of_parse h
  have hline : (splitLines text.toList)[front.count '\n']? =
      some (lastLine front ++ firstLine (c :: rest)) := by
    rw [htext, getElem?_splitLines]
  have hfirst : firstLine (c :: rest) = c :: firstLine rest := by simp [firstLine, hc]
  refine ⟨front.count '\n' + 1, (lastLine front).length + 1,
    lastLine front ++ firstLine (c :: rest), ?_, Nat.le_add_left _ _, ?_, hline,
    Nat.le_add_left _ _, ?_, ?_⟩
  · rw [Span.ofPlace, column_after, Place.line_after, Place.start, Nat.add_comm 1]
  · exact (List.getElem?_eq_some_iff.mp hline).1
  · rw [hfirst, List.length_append, List.length_cons]
    omega
  · rw [htext]
    exact context_append front (c :: rest)

/-- A text of three lines that is refused on the second of them, far behind two tabs. -/
def tabbedText : String := String.ofList
  ("import a\n".toList ++ "\tfrom several.modules.of.some.depth".toList ++
    "\timport one, two, three four\n\x7d".toList)

/-- The advice for that text. The first tab is cut off, and the second is eight columns wide. -/
def tabbedHelp : String := String.ofList
  ("es.of.some.depth\timport one, two, three four\n".toList ++ List.replicate 47 ' ' ++ ['^'])

theorem help_of_parse_tabbed :
    parse tabbedText = .error (.malformed ⟨some 2, some 60⟩ tabbedHelp) ∧
    ∃ (line column : Nat) (source : List Char),
      (⟨some 2, some 60⟩ : Span) = ⟨some (line : Int), some (column : Int)⟩ ∧
      1 ≤ line ∧ line ≤ (splitLines tabbedText.toList).length ∧
      (splitLines tabbedText.toList)[line - 1]? = some source ∧
      1 ≤ column ∧ column - 1 < source.length ∧ tabbedHelp = excerpt 40 8 source (column - 1) := by
  have htext : tabbedText.toList = _ := String.toList_ofList
  have h : parse tabbedText = .error (.malformed ⟨some 2, some 60⟩ tabbedHelp) := by
    rw [parse, htext]
    decide +kernel
  exact ⟨h, help_of_parse h⟩

end Interpose
