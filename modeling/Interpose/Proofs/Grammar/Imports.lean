import Interpose.Proofs.Definition.Steps
import Interpose.Proofs.Grammar.Parts

/-!
# Derivations of imports

What has been read so far of an import is what some trees stand for whose tokens are those that were
read. The tree of a module holds the dots before it, that of an imported name its new name.
-/

namespace Interpose

open Source Grammar

variable {token : Token}

/-- A complete import, as a tree. -/
def Import.Spells (item : Import) (tree : ParseTree) : Prop :=
  ∃ rule ∈ [Rule.plainImport, .fromImport], ∃ children, tree = .node rule children ∧
    rule.Derives children ∧ tree.imports = [item]

/-- The dots before a module, as the first children of its tree. -/
structure Origin (dots : Nat) (trees : List ParseTree) : Prop where
  goes : Goes .moduleRef trees [.node [.dottedName]]
  text : String.join (trees.map ParseTree.originText) = String.ofList (List.replicate dots '.')

/-- A selective import that has been read, as children of its tree that leave some forms. -/
structure Picked (origin : String) (picks : List String) (forms : List Form)
    (trees : List ParseTree) :
    Prop where
  goes : Goes .fromImport trees forms
  origin : trees.flatMap ParseTree.origins = [origin]
  picks : trees.flatMap ParseTree.picks = picks

/-- What follows the module of a selective import and its keyword. -/
def nextPick : List Form := [.node [.importName], .further (.node [.importName])]

/-- What follows a name that is imported. -/
def morePicks : List Form := [.further (.node [.importName])]

theorem Origin.nil : Origin 0 [] := by
  have hstart : Goes .moduleRef [] [.optional [.terminal .dots], .node [.dottedName]] :=
    Goes.start (by simp [Rule.alternatives])
  exact ⟨hstart.skip, rfl⟩

theorem Origin.dots (count : Nat) (place : Place) :
    Origin count [.leaf ⟨.dots count, place⟩] := by
  have hstart : Goes .moduleRef [] [.optional [.terminal .dots], .node [.dottedName]] :=
    Goes.start (by simp [Rule.alternatives])
  exact ⟨hstart.take.leaf (.dots count) place, by simp [ParseTree.originText]⟩

/-- The module of a selective import and its keyword leave the names that are imported. -/
theorem Picked.start {children : List ParseTree} (hderives : Rule.moduleRef.Derives children)
    {origin : String} (horigin : ParseTree.origins (.node .moduleRef children) = [origin])
    (place other : Place) :
    Picked origin [] nextPick [.leaf ⟨.word .fromWord, place⟩, .node .moduleRef children,
      .leaf ⟨.word .importWord, other⟩] := by
  have hstart : Goes .fromImport [] [.word .fromWord, .node [.moduleRef], .word .importWord,
      .node [.importName], .further (.node [.importName])] :=
    Goes.start (by simp [Rule.alternatives])
  refine ⟨((hstart.word place).node List.mem_cons_self hderives).word other, ?_, rfl⟩
  simp only [List.flatMap_cons, List.flatMap_nil, horigin]
  rfl

/-- A module with the dots before it leaves the names that are imported. -/
theorem Origin.picked {dots : Nat} {words : List String} {first trees : List ParseTree}
    (h : Origin dots first) (htrees : Pointed .dottedName words [.points] trees)
    (place other : Place) :
    Picked (ImportReading.sourceText dots words) [] nextPick [.leaf ⟨.word .fromWord, place⟩,
      .node .moduleRef (first ++ [.node .dottedName trees]),
      .leaf ⟨.word .importWord, other⟩] := by
  refine Picked.start (h.goes.node List.mem_cons_self htrees.derives).derives ?_ place other
  rw [ParseTree.origins, List.map_append, List.map_singleton, String.join_append, h.text,
    ParseTree.originText, htrees.names, ImportReading.sourceText]
  simp

/-- Dots alone leave the names that are imported. -/
theorem Picked.dots (count : Nat) (place dots other : Place) :
    Picked (ImportReading.sourceText count []) [] nextPick [.leaf ⟨.word .fromWord, place⟩,
      .node .moduleRef [.leaf ⟨.dots count, dots⟩], .leaf ⟨.word .importWord, other⟩] := by
  have hstart : Goes .moduleRef [] [.terminal .dots] := Goes.start (by simp [Rule.alternatives])
  refine Picked.start (hstart.leaf (.dots count) dots).derives ?_ place other
  simp [ParseTree.origins, ParseTree.originText, ImportReading.sourceText]

/-- A name that is imported joins the ones before it. -/
theorem Picked.add {origin text : String} {before : List String}
    {trees children : List ParseTree} (h : Picked origin before nextPick trees)
    (hderives : Rule.importName.Derives children)
    (htext : ParseTree.picks (.node .importName children) = [text]) :
    Picked origin (before ++ [text]) morePicks (trees ++ [.node .importName children]) := by
  refine ⟨h.goes.node List.mem_cons_self hderives, ?_, ?_⟩
  · rw [List.flatMap_append, h.origin]
    rfl
  · rw [List.flatMap_append, h.picks, List.flatMap_singleton, htext]

theorem Picked.addName {origin : String} {before : List String} {trees : List ParseTree}
    (h : Picked origin before nextPick trees) (name : String) (place : Place) :
    Picked origin (before ++ [name]) morePicks
      (trees ++ [.node .importName [.leaf ⟨.name name, place⟩]]) := by
  have hstart : Goes .importName [] [.name, .renamed] := Goes.start (by simp [Rule.alternatives])
  exact h.add (hstart.name name place).skip.derives rfl

theorem Picked.addRenamed {origin : String} {before : List String} {trees : List ParseTree}
    (h : Picked origin before nextPick trees) (name new : String) (place other last : Place) :
    Picked origin (before ++ [aliasText name new]) morePicks
      (trees ++ [.node .importName [.leaf ⟨.name name, place⟩, .leaf ⟨.word .asWord, other⟩,
        .leaf ⟨.name new, last⟩]]) := by
  have hstart : Goes .importName [] [.name, .renamed] := Goes.start (by simp [Rule.alternatives])
  exact h.add (((hstart.name name place).take.word other).name new last).derives rfl

/-- A comma makes room for another name. -/
theorem Picked.comma {origin : String} {names : List String} {trees : List ParseTree}
    (h : Picked origin names morePicks trees) (place : Place) :
    Picked origin names nextPick (trees ++ [.leaf ⟨.mark .comma, place⟩]) := by
  refine ⟨h.goes.again.mark place, ?_, ?_⟩
  · rw [List.flatMap_append, h.origin]
    rfl
  · rw [List.flatMap_append, h.picks]
    exact List.append_nil _

/-- What has been read of an import. -/
def ImportReading.Spells (tokens : List Placed) : ImportReading → Prop
  | .plain => ∃ place, tokens = [⟨.word .importWord, place⟩]
  | .plainPath names => ∃ place trees, tokens = ⟨.word .importWord, place⟩ :: yields trees ∧
      Pointed .dottedName names [.points] trees
  | .plainDot names => ∃ place trees, tokens = ⟨.word .importWord, place⟩ :: yields trees ∧
      Pointed .dottedName names [.name, .points] trees
  | .plainAs names => ∃ place trees other,
      tokens = ⟨.word .importWord, place⟩ :: yields trees ++ [⟨.word .asWord, other⟩] ∧
      Pointed .dottedName names [.points] trees
  | .plainDone names new => ∃ place trees other last,
      tokens = ⟨.word .importWord, place⟩ :: yields trees ++
        [⟨.word .asWord, other⟩, ⟨.name new, last⟩] ∧
      Pointed .dottedName names [.points] trees
  | .source => ∃ place, tokens = [⟨.word .fromWord, place⟩]
  | .sourceDots count => ∃ place other,
      tokens = [⟨.word .fromWord, place⟩, ⟨.dots count, other⟩]
  | .sourcePath dots names => ∃ place first trees,
      tokens = ⟨.word .fromWord, place⟩ :: yields first ++ yields trees ∧ Origin dots first ∧
      Pointed .dottedName names [.points] trees
  | .sourceDot dots names => ∃ place first trees,
      tokens = ⟨.word .fromWord, place⟩ :: yields first ++ yields trees ∧ Origin dots first ∧
      Pointed .dottedName names [.name, .points] trees
  | .pick origin names => ∃ trees, tokens = yields trees ∧ Picked origin names nextPick trees
  | .picked origin before name => ∃ trees place, tokens = yields trees ++ [⟨.name name, place⟩] ∧
      Picked origin before nextPick trees
  | .pickAs origin before name => ∃ trees place other,
      tokens = yields trees ++ [⟨.name name, place⟩, ⟨.word .asWord, other⟩] ∧
      Picked origin before nextPick trees
  | .pickedAs origin names => ∃ trees, tokens = yields trees ∧ Picked origin names morePicks trees

namespace ImportReading

variable {reading next : ImportReading} {tokens : List Placed}

private theorem pointed_start (name : String) (place : Place) :
    Pointed .dottedName [name] [.points] [.leaf ⟨.name name, place⟩] :=
  .start (by simp [Rule.alternatives]) name place

/-- A token that is taken goes on with the trees that have been read. -/
theorem Spells.step (h : reading.Spells tokens) (hstep : reading.step token = some next)
    (place : Place) : next.Spells (tokens ++ [⟨token, place⟩]) := by
  cases advances_of_step hstep with
  | plain name =>
    obtain ⟨first, rfl⟩ := h
    exact ⟨first, _, rfl, pointed_start _ place⟩
  | plainDot names =>
    obtain ⟨first, trees, rfl, htrees⟩ := h
    exact ⟨first, _, by simp, htrees.dot place⟩
  | plainAs names =>
    obtain ⟨first, trees, rfl, htrees⟩ := h
    exact ⟨first, trees, place, rfl, htrees⟩
  | plainPath names name =>
    obtain ⟨first, trees, rfl, htrees⟩ := h
    exact ⟨first, _, by simp, htrees.add _ place⟩
  | plainDone names new =>
    obtain ⟨first, trees, other, rfl, htrees⟩ := h
    exact ⟨first, trees, other, place, by simp, htrees⟩
  | dots count =>
    obtain ⟨first, rfl⟩ := h
    exact ⟨first, place, rfl⟩
  | source name =>
    obtain ⟨first, rfl⟩ := h
    exact ⟨first, [], _, rfl, .nil, pointed_start _ place⟩
  | sourceDots count name =>
    obtain ⟨first, dots, rfl⟩ := h
    exact ⟨first, _, _, by simp, .dots count dots, pointed_start _ place⟩
  | pickDots count =>
    obtain ⟨first, dots, rfl⟩ := h
    exact ⟨_, by simp, .dots count first dots place⟩
  | sourceDot dots names =>
    obtain ⟨first, origin, trees, rfl, horigin, htrees⟩ := h
    exact ⟨first, origin, _, by simp, horigin, htrees.dot place⟩
  | pickSource dots names =>
    obtain ⟨first, origin, trees, rfl, horigin, htrees⟩ := h
    exact ⟨_, by simp, horigin.picked htrees first place⟩
  | sourcePath dots names name =>
    obtain ⟨first, origin, trees, rfl, horigin, htrees⟩ := h
    exact ⟨first, origin, _, by simp, horigin, htrees.add _ place⟩
  | picked origin names name =>
    obtain ⟨trees, rfl, hpicked⟩ := h
    exact ⟨trees, place, rfl, hpicked⟩
  | pickAs origin before name =>
    obtain ⟨trees, first, rfl, hpicked⟩ := h
    exact ⟨trees, first, place, by simp, hpicked⟩
  | comma origin before name =>
    obtain ⟨trees, first, rfl, hpicked⟩ := h
    exact ⟨_, by simp, (hpicked.addName name first).comma place⟩
  | pickedAs origin before name new =>
    obtain ⟨trees, first, other, rfl, hpicked⟩ := h
    exact ⟨_, by simp, hpicked.addRenamed name _ first other place⟩
  | commaAs origin names =>
    obtain ⟨trees, rfl, hpicked⟩ := h
    exact ⟨_, by simp, hpicked.comma place⟩

/-- A complete import is what the tree of its tokens stands for. -/
theorem Spells.done? {item : Import} (h : reading.Spells tokens)
    (hdone : reading.done? = some item) : ∃ tree, tokens = tree.yield ∧ item.Spells tree := by
  have hstart : Goes .plainImport [] [.word .importWord, .node [.dottedName], .renamed] :=
    Goes.start (by simp [Rule.alternatives])
  cases reading with
  | plainPath names =>
    obtain ⟨place, trees, rfl, htrees⟩ := h
    obtain rfl := Option.some.inj hdone
    have hgoes := (hstart.word place).node List.mem_cons_self htrees.derives
    refine ⟨_, by simp, .plainImport, by simp, _, rfl, hgoes.skip.derives, ?_⟩
    exact congrArg (fun words => [Import.mk (plainText (".".intercalate words))]) htrees.names
  | plainDone names new =>
    obtain ⟨place, trees, other, last, rfl, htrees⟩ := h
    obtain rfl := Option.some.inj hdone
    have hgoes := (hstart.word place).node List.mem_cons_self htrees.derives
    refine ⟨_, by simp, .plainImport, by simp, _, rfl,
      ((hgoes.take.word other).name new last).derives, ?_⟩
    exact congrArg
      (fun words => [Import.mk (plainText (aliasText (".".intercalate words) new))]) htrees.names
  | picked origin before name =>
    obtain ⟨trees, place, rfl, hpicked⟩ := h
    obtain rfl := Option.some.inj hdone
    have hadded := hpicked.addName name place
    refine ⟨_, by simp, .fromImport, by simp, _, rfl, hadded.goes.stop.derives, ?_⟩
    rw [ParseTree.imports, hadded.origin, hadded.picks]
    rfl
  | pickedAs origin names =>
    obtain ⟨trees, rfl, hpicked⟩ := h
    obtain rfl := Option.some.inj hdone
    refine ⟨_, by simp, .fromImport, by simp, _, rfl, hpicked.goes.stop.derives, ?_⟩
    rw [ParseTree.imports, hpicked.origin, hpicked.picks]
    rfl
  | _ => simp [ImportReading.done?] at hdone

end ImportReading

end Interpose
