import Interpose.Proofs.Definition.RoundTrip
import Interpose.Proofs.Grammar.Acceptance
import Interpose.Proofs.Grammar.Constructs
import Interpose.Proofs.Grammar.Derivation

/-!
# Parsing and the grammar

A text is read exactly when its tokens derive from the grammar, and then as what a derivation of
them stands for. Cleaning the bodies changes no construct, so the definition that a text stands for
has the imports and the constructs of the derivation.
-/

namespace Interpose

open Source Grammar

/-- A definition file: its text is tokens to the end, and they derive from the grammar. -/
def Grammatical (text : List Char) : Prop :=
  (scan text).stuck = none ∧ ∃ trees, Rule.start.Derives trees ∧ yields trees = (scan text).tokens

/-- A text that is not read is no definition file. -/
theorem readDefinition_eq_error {text : List Char} {fault : Fault}
    (h : readDefinition text = .error fault) : ∃ span context, fault = .malformed span context := by
  unfold readDefinition at h
  cases hscan : Definition.ofScan (scan text) with
  | ok definition => simp [hscan] at h
  | error place =>
    rw [hscan] at h
    exact ⟨_, _, (Except.error.inj h).symm⟩

/-- Exactly the definition files are read. -/
theorem exists_readDefinition_iff {text : List Char} :
    (∃ read, readDefinition text = .ok read) ↔ Grammatical text := by
  simp only [readDefinition_eq_ok_iff]
  constructor
  · rintro ⟨read, hread⟩
    obtain ⟨hstuck, trees, hderives, hyields, _⟩ := exists_derivation_of_ofScan hread
    exact ⟨hstuck, trees, hderives, hyields⟩
  · rintro ⟨hstuck, trees, hderives, hyields⟩
    exact exists_ofScan_of_derives hstuck hderives hyields

/-! ## Cleaning -/

theorem MethodDef.constructs_of_clean {method : MethodDef Fenced} {cleaned : MethodDef String}
    (h : method.clean = .ok cleaned) : cleaned.constructs = method.constructs := by
  obtain ⟨body, _, rfl⟩ := map_eq_ok_iff.mp h
  rfl

theorem ImplDef.constructs_of_clean {impl : ImplDef Fenced} {cleaned : ImplDef String}
    (h : impl.clean = .ok cleaned) : cleaned.constructs = impl.constructs := by
  obtain ⟨methods, hmethods, rfl⟩ := map_eq_ok_iff.mp h
  have hflat := flatMap_eq_of_mapM (fun _ _ => MethodDef.constructs_of_clean) hmethods
  rw [ImplDef.constructs, ImplDef.constructs, hflat]

/-- Cleaning keeps every construct of a definition. -/
theorem Definition.constructs_of_clean {definition : Definition Fenced}
    {cleaned : Definition String} (h : definition.clean = .ok cleaned) :
    cleaned.imports = definition.imports ∧ cleaned.constructs = definition.constructs := by
  obtain ⟨impls, himpls, rfl⟩ := map_eq_ok_iff.mp h
  exact ⟨rfl, flatMap_eq_of_mapM (fun _ _ => ImplDef.constructs_of_clean) himpls⟩

/-! ## Soundness -/

/-- What a text is read as, and what is left of it once it is cleaned. -/
theorem exists_derivation_of_parse {text : String}
    (h : ∀ span context, parse text ≠ .error (.malformed span context)) :
    ∃ (pieces : List Piece) (trees : List ParseTree),
      (text.toList = pieces.flatMap Piece.text ∧ ∀ piece ∈ pieces, piece.Lexical) ∧
      (Rule.start.Derives trees ∧ yields trees = Piece.placed .start pieces) ∧
      readDefinition text.toList = .ok (definitionOf trees) ∧
      ∀ definition, parse text = .ok definition →
        (definitionOf trees).clean = .ok definition ∧
        definition.constructs = constructsOf trees ∧
        List.Forall₂ (fun tree item => tree.imports = [item]) (trees.filter ParseTree.isImport)
          definition.imports := by
  cases hread : readDefinition text.toList with
  | error fault =>
    obtain ⟨span, context, rfl⟩ := readDefinition_eq_error hread
    have hparse : parse text = .error (.malformed span context) := by
      unfold parse
      rw [hread]
      rfl
    exact absurd hparse (h span context)
  | ok read =>
    obtain ⟨hstuck, trees, hderives, hyields, rfl⟩ :=
      exists_derivation_of_ofScan (readDefinition_eq_ok_iff.mp hread)
    obtain ⟨pieces, htext, hlexical, hplaced⟩ :=
      exists_pieces .operator .start text.toList hstuck
    refine ⟨pieces, trees, ⟨htext, hlexical⟩, ⟨hderives, hyields.trans hplaced.symm⟩, rfl, ?_⟩
    intro definition hparse
    obtain ⟨again, hagain, hclean, _⟩ := parse_eq_ok_iff.mp hparse
    obtain rfl := Except.ok.inj (hread.symm.trans hagain)
    obtain ⟨himports, hconstructs⟩ := Definition.constructs_of_clean hclean
    refine ⟨hclean, hconstructs.trans (constructs_definitionOf hderives), ?_⟩
    rw [himports]
    exact forall₂_importsOf trees

/-- A text whose tokens touch where they can. -/
def touchingText : String :=
  "importfoo#c\nimplX(a.B[C],)\x7brpcf(x:int,)->Y\x60\x60\x60z\x60\x60\x60\x7d"

/-- The definition that the text stands for. -/
def touching : Definition String where
  imports := [⟨"import foo"⟩]
  impls := [{
    name := "X"
    bases := [⟨"a.B", [⟨"C", [], ⟨some 2, some 11⟩⟩], ⟨some 2, some 7⟩⟩]
    methods := [{
      name := "f"
      params := [⟨"x", some ⟨"int", [], ⟨some 2, some 23⟩⟩, ⟨some 2, some 21⟩⟩]
      result := some ⟨"Y", [], ⟨some 2, some 30⟩⟩
      body := "z"
      annotations := []
      span := ⟨some 2, some 19⟩ }]
    annotations := []
    span := ⟨some 2, some 1⟩ }]

theorem exists_derivation_touching :
    (∀ span context, parse touchingText ≠ .error (.malformed span context)) ∧
    parse touchingText = .ok touching ∧
    ∃ trees, Rule.start.Derives trees ∧ touching.constructs = constructsOf trees :=
  have hparse : parse touchingText = .ok touching := by decide +kernel
  have hread : ∀ span context, parse touchingText ≠ .error (.malformed span context) := by
    simp [hparse]
  have ⟨_, trees, _, ⟨hderives, _⟩, _, himage⟩ := exists_derivation_of_parse hread
  ⟨hread, hparse, trees, hderives, (himage touching hparse).2.1⟩

end Interpose
