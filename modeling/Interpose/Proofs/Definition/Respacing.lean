import Interpose.Proofs.Definition.RoundTrip
import Interpose.Proofs.Source.Cut

/-!
# The layout of definition files

What a text stands for is a matter of its tokens alone: every other layout of the text, with blanks
and comments put in at the boundaries of its tokens or exchanged there, stands for the same
definition up to spans.
-/

namespace Interpose

open Source

/-- The definition that was read from a text is read from every text that a reading goes over with
the same tokens. -/
theorem exists_parse_of_reads {text other : String} {definition : Definition String}
    {read : Definition Fenced} (place : Place) (hparse : parse text = .ok definition)
    (hread : readDefinition text.toList = .ok read)
    (hother : Reading.start.Reads place
      (read.mapSpan (Span.moveTo place) (Fenced.mapSpan (Span.moveTo place))) .operator
      other.toList) :
    ∃ changed, parse other = .ok changed ∧ changed.erase = definition.erase := by
  obtain ⟨again, hagain, hclean, hnames⟩ := parse_eq_ok_iff.mp hparse
  obtain rfl := Except.ok.inj (hread.symm.trans hagain)
  obtain ⟨raw, hraw, hspans⟩ := exists_readDefinition_of_reads hother
  have hmoved := Definition.clean_mapSpan (f := Span.moveTo place) hclean
  rw [← hspans] at hmoved
  obtain ⟨changed, hchanged, hsame⟩ := Definition.exists_clean_of_mapSpan hmoved
  have himpls := congrArg Definition.impls hsame
  have haccepted : NamesAccepted changed.impls :=
    (namesAccepted_iff_of_mapSpan_eq himpls).mpr hnames
  exact ⟨changed, parse_eq_ok_iff.mpr ⟨raw, hraw, hchanged, haccepted⟩,
    Definition.erase_eq_of_mapSpan_eq _ hsame⟩

/-- The tokens of a text that is read are read one after the other at one place too. -/
theorem Reading.exists_foldlM_of_readDefinition {text : List Char} {read : Definition Fenced}
    (h : readDefinition text = .ok read) (place : Place) : (scan text).stuck = none ∧
      ∃ last : Reading, ((scan text).tokens.map (·.token)).foldlM
        (fun reading token => reading.step token place) Reading.start = some last ∧
      last.done? =
        some (read.mapSpan (Span.moveTo place) (Fenced.mapSpan (Span.moveTo place))) := by
  obtain ⟨hstuck, last, after, hrun, hdone⟩ :=
    Definition.ofScan_eq_ok_iff.mp (readDefinition_eq_ok_iff.mp h)
  refine ⟨hstuck, _, Reading.foldlM_of_run place hrun, ?_⟩
  rw [Reading.done?_mapSpan, hdone]
  rfl

/-- A text that is accepted can be cut at its tokens, and every other layout of it stands for the
same definition up to spans. -/
theorem parse_respaced {text : String} {definition : Definition String}
    (h : parse text = .ok definition) :
    (∃ cut : Cut, cut.Cuts text.toList) ∧ ∀ cut other : Cut, cut.Cuts text.toList →
      cut.Respaced other → ∃ changed, parse (String.ofList other.text) = .ok changed ∧
        changed.erase = definition.erase := by
  obtain ⟨read, hread, _⟩ := parse_eq_ok_iff.mp h
  obtain ⟨hstuck, last, hrun, hdone⟩ := Reading.exists_foldlM_of_readDefinition hread .start
  obtain ⟨found, hfound, hmunches, htrailer⟩ := exists_cut_of_scan hstuck
  refine ⟨⟨found, hfound⟩, fun cut other hcut hother => ?_⟩
  obtain rfl := hcut.unique hfound
  have hleft := hother.trailer.splitGap_eq_nil htrailer
  refine exists_parse_of_reads .start h hread ⟨last, ?_, hdone⟩
  rw [String.toList_ofList]
  refine (hmunches.respaced hother.items (opensGap_of_splitGap hleft)).feeds ?_ (.done hleft)
  rw [tokens_eq_of_respaced hother.items, ← token_spreadPlaces .start cut.items, hcut.tokens]
  exact hrun

/-- A text in which tokens touch and a comment is open at the end. -/
def denseText : String := "impl A(B,)\x7b\x7d#end"

/-- The text cut at its tokens. -/
def denseCut : Cut where
  items := [⟨[], .word .implWord⟩, ⟨[' '], .name "A"⟩, ⟨[], .mark .openParen⟩, ⟨[], .name "B"⟩,
    ⟨[], .mark .comma⟩, ⟨[], .mark .closeParen⟩, ⟨[], .mark .openBrace⟩, ⟨[], .mark .closeBrace⟩]
  trailer := ['#', 'e', 'n', 'd']

/-- The same tokens with a comment in the place of the space, blanks where two tokens touch, and a
newline that closes the last comment. -/
def looseCut : Cut where
  items := [⟨[], .word .implWord⟩, ⟨['#', 'x', '\n'], .name "A"⟩,
    ⟨['\x0c', '\t'], .mark .openParen⟩, ⟨[], .name "B"⟩, ⟨[], .mark .comma⟩,
    ⟨[], .mark .closeParen⟩, ⟨[], .mark .openBrace⟩, ⟨[], .mark .closeBrace⟩]
  trailer := ['#', 'e', 'n', 'd', '\n']

/-- The definition that the text stands for. -/
def dense : Definition String where
  imports := []
  impls := [{
    name := "A"
    bases := [⟨"B", [], ⟨some 1, some 8⟩⟩]
    methods := []
    annotations := []
    span := ⟨some 1, some 1⟩ }]

theorem denseCut_cuts : denseCut.Cuts denseText.toList where
  whole := by decide
  tokens := by decide +kernel
  gaps := by
    simp only [denseCut, List.forall_mem_cons]
    exact ⟨.nil, .space rfl .nil, .nil, .nil, .nil, .nil, .nil, .nil, by simp⟩
  trailer := .inr ⟨[], ['e', 'n', 'd'], .nil, by decide, rfl⟩

theorem denseCut_respaced : denseCut.Respaced looseCut where
  items := by
    have hcomment : Spacing ['#', 'x', '\n'] :=
      .comment (by decide : '\n' ∉ ['x']) .nil
    have hblanks : Spacing ['\x0c', '\t'] := .space rfl (.space rfl .nil)
    have hkeep : ∀ item : Spaced, item.Respaced item := fun item => ⟨rfl, .keep item.gap⟩
    refine .cons (hkeep _) (.cons ⟨rfl, .replace (by decide) (by decide) hcomment⟩ ?_)
    refine .cons ⟨rfl, .of_nil hblanks⟩ ?_
    exact List.forall₂_same.mpr fun item _ => hkeep item
  trailer := .add (.space rfl .nil)

theorem parse_respaced_dense :
    parse denseText = .ok dense ∧ denseCut.Cuts denseText.toList ∧ denseCut.Respaced looseCut ∧
      ∃ changed, parse (String.ofList looseCut.text) = .ok changed ∧
        changed.erase = dense.erase :=
  have hparse : parse denseText = .ok dense := by decide +kernel
  ⟨hparse, denseCut_cuts, denseCut_respaced,
    (parse_respaced hparse).2 denseCut looseCut denseCut_cuts denseCut_respaced⟩

end Interpose
