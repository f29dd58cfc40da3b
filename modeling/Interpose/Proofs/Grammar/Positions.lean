import Interpose.Proofs.Grammar.Marks
import Interpose.Proofs.Grammar.Parsing
import Interpose.Proofs.Source.Cut
import Interpose.Proofs.Source.Places

/-!
# Where constructs stand in a text

The tokens that are scanned in a text stand in it one after the other, and every construct of the
definition that the text stands for is pointed at by a token of its own. So a span leads back to the
text that its construct begins with, and spans go up as their constructs follow each other.
-/

namespace Interpose

open Source Grammar

/-! ## Signs in a text -/

/-- A text reads a sign's word at the sign's span, and the word is a whole token there. -/
structure Sign.Stands (text : List Char) (sign : Sign) : Prop where
  /-- Some character stands at the span. -/
  nonempty : sign.word ≠ []
  /-- The span tells the line and the column that the word begins at. -/
  reads : ∃ before after, text = before ++ sign.word ++ after ∧
    sign.span = .ofPlace (Place.start.after before)
  /-- The word is neither a part of a token nor more than one. -/
  whole : sign ∈ (scan text).tokens.map Placed.sign

/-- One span leads to a place before the place of another: on an earlier line, or further left on
the same line. -/
def Span.Precedes (span other : Span) : Prop :=
  ∃ place next : Place, span = .ofPlace place ∧ other = .ofPlace next ∧ place.Before next

/-- The spans of a definition lead to what it has been read from. -/
structure Definition.StandsIn {Body : Type} (text : List Char) (definition : Definition Body) :
    Prop where
  /-- The span of every construct is the span of a sign. -/
  signed : ∀ construct ∈ definition.constructs,
    ∃ sign ∈ definition.signs ++ definition.blockSigns, sign.span = construct.span
  /-- At the spans of annotations, arguments, methods, parameters and types, the text reads the
  sign of the annotation, the literal, the name or the first name of the path. -/
  parts : ∀ sign ∈ definition.signs, sign.Stands text
  /-- At the span of a block, the text reads the sign of its first annotation or its keyword. -/
  blocks : ∀ sign ∈ definition.blockSigns, sign.Stands text
  /-- The spans of what is in the blocks go up in the order of the text. -/
  ordered : (definition.signs.map Sign.span).Pairwise Span.Precedes
  /-- The spans of constructs of one kind go up as the constructs follow each other. -/
  kinds : ∀ rule, (spansOf rule definition.constructs).Pairwise Span.Precedes

/-! ## Tokens in a text -/

namespace Source

/-- Tokens that have a text of their own stand one before the other. -/
theorem pairwise_spreadPlaces {items : List Spaced} (h : ∀ item ∈ items, item.token.lexeme ≠ [])
    (place : Place) :
    (spreadPlaces place items).Pairwise fun placed next => placed.place.Before next.place := by
  induction items generalizing place with
  | nil => exact .nil
  | cons item items ih =>
    obtain ⟨hitem, hitems⟩ := List.forall_mem_cons.mp h
    refine List.pairwise_cons.mpr ⟨fun next hmem => ?_, ih hitems _⟩
    obtain ⟨before, after, hsplit⟩ := List.append_of_mem hmem
    obtain ⟨front, other, back, rfl, rfl, rfl⟩ := exists_split_of_spreadPlaces hsplit
    -- The token's own text stands between the two places.
    have hne : item.token.lexeme ++ (spread front ++ other.gap) ≠ [] := by simp [hitem]
    have hbefore := Place.before_after hne (place.after item.gap)
    simpa [Spaced.text] using hbefore

/-- The tokens that are scanned in a text stand in it, in their order. -/
theorem stands_of_scan (text : List Char) :
    (∀ placed ∈ (scan text).tokens, placed.token.IsLexeme ∧ placed.sign.Stands text) ∧
      (((scan text).tokens.map Placed.sign).map Sign.span).Pairwise Span.Precedes := by
  obtain ⟨items, rest, htext, hmunches, htokens, _⟩ := exists_munches .operator .start text
  rw [← scan] at htokens
  have hlexeme : ∀ item ∈ items, item.token.lexeme ≠ [] := by
    intro item hmem
    obtain ⟨mode, left, hmunch⟩ := hmunches.exists_munch item hmem
    exact lexeme_ne_nil_of_munch hmunch
  constructor
  · intro placed hmem
    have hsign := List.mem_map_of_mem (f := Placed.sign) hmem
    rw [htokens] at hmem
    obtain ⟨before, after, hsplit⟩ := List.append_of_mem hmem
    obtain ⟨front, item, back, rfl, rfl, rfl⟩ := exists_split_of_spreadPlaces hsplit
    have hitem : item ∈ front ++ item :: back := by simp
    obtain ⟨mode, left, hmunch⟩ := hmunches.exists_munch item hitem
    refine ⟨isLexeme_of_munch hmunch, hlexeme item hitem, ?_, hsign⟩
    refine ⟨spread front ++ item.gap, spread back ++ rest, ?_, rfl⟩
    rw [htext, spread_append, List.append_assoc, spread_cons_append]
    simp [Placed.sign]
  · rw [htokens, List.pairwise_map, List.pairwise_map]
    refine (pairwise_spreadPlaces hlexeme .start).imp fun hbefore => ?_
    exact ⟨_, _, rfl, rfl, hbefore⟩

end Source

/-! ## Signs of what is read -/

theorem MethodDef.signs_of_clean {method : MethodDef Fenced} {cleaned : MethodDef String}
    (h : method.clean = .ok cleaned) : cleaned.signs = method.signs := by
  obtain ⟨body, _, rfl⟩ := map_eq_ok_iff.mp h
  rfl

theorem ImplDef.signs_of_clean {impl : ImplDef Fenced} {cleaned : ImplDef String}
    (h : impl.clean = .ok cleaned) : cleaned.signs = impl.signs ∧ cleaned.sign = impl.sign := by
  obtain ⟨methods, hmethods, rfl⟩ := map_eq_ok_iff.mp h
  have hflat := flatMap_eq_of_mapM (fun _ _ => MethodDef.signs_of_clean) hmethods
  exact ⟨by rw [ImplDef.signs, ImplDef.signs, hflat], rfl⟩

/-- Cleaning leaves every construct where it stands. -/
theorem Definition.signs_of_clean {definition : Definition Fenced} {cleaned : Definition String}
    (h : definition.clean = .ok cleaned) :
    cleaned.signs = definition.signs ∧ cleaned.blockSigns = definition.blockSigns := by
  obtain ⟨impls, himpls, rfl⟩ := map_eq_ok_iff.mp h
  exact ⟨flatMap_eq_of_mapM (fun _ _ hclean => (ImplDef.signs_of_clean hclean).1) himpls,
    map_eq_of_mapM (fun _ _ hclean => (ImplDef.signs_of_clean hclean).2) himpls⟩

/-- Every span of what a text stands for leads to the text that its construct begins with, and
different constructs stand in different places, in their order. -/
theorem standsIn_of_parse {text : String} {definition : Definition String}
    (h : parse text = .ok definition) : definition.StandsIn text.toList := by
  obtain ⟨read, hread, hclean, _⟩ := parse_eq_ok_iff.mp h
  obtain ⟨_, trees, hderives, hyields, rfl⟩ :=
    exists_derivation_of_ofScan (readDefinition_eq_ok_iff.mp hread)
  obtain ⟨hparts, hblocks⟩ := Definition.signs_of_clean hclean
  obtain ⟨htokens, hordered⟩ := stands_of_scan text.toList
  have hmarks : marks trees = (scan text.toList).tokens.map Placed.sign := by rw [marks, hyields]
  have hlexemes : Lexemes trees := fun placed hmem => (htokens placed (hyields ▸ hmem)).1
  have hstands : ∀ sign ∈ marks trees, sign.Stands text.toList := by
    intro sign hmem
    obtain ⟨placed, hplaced, rfl⟩ := List.mem_map.mp (hmarks ▸ hmem)
    exact (htokens placed hplaced).2
  rw [← hmarks] at hordered
  have hsigns : definition.signs.Sublist (marks trees) :=
    hparts ▸ hderives.signs_sublist hlexemes
  have hsign : definition.blockSigns.Sublist (marks trees) := hblocks ▸ blockSigns_sublist hderives
  refine {
    signed := fun construct hmem => Definition.exists_sign_of_mem hmem
    parts := fun sign hmem => hstands sign (hsigns.subset hmem)
    blocks := fun sign hmem => hstands sign (hsign.subset hmem)
    ordered := hordered.sublist (hsigns.map _)
    kinds := fun rule => ?_ }
  rcases definition.spansOf_sublist rule with hkind | hkind
  · exact hordered.sublist (hkind.trans (hsigns.map _))
  · exact hkind ▸ hordered.sublist (hsign.map _)

theorem standsIn_crowded : parse crowdedText = .ok crowded ∧ crowded.StandsIn crowdedText.toList :=
  ⟨parse_crowdedText, standsIn_of_parse parse_crowdedText⟩

end Interpose
