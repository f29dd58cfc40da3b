import Interpose.Proofs.Grammar.Image
import Mathlib.Data.List.Basic
import Mathlib.Data.List.Forall2

/-!
# The constructs of a derivation

The constructs that a definition reports with a span are the trees of certain rules, in the order of
the text: blocks, annotations, arguments, methods, parameters and types. Every such tree of a
derivation is one construct of the definition that it stands for, and there are no others. The
arguments of a call are text of the call. Imports report no span; each is one tree of a derivation.
-/

namespace Interpose

open Source Grammar

/-- A part of a definition that reports a span. -/
structure Construct where
  /-- The rule whose trees are such parts. -/
  rule : Rule
  /-- The span that is reported. -/
  span : Span
  deriving DecidableEq, Repr

/-! ## Constructs of definitions -/

mutual

/-- A type and the types in its brackets. -/
def TypeExpr.constructs : TypeExpr → List Construct
  | ⟨_, args, span⟩ => ⟨.typeExpr, span⟩ :: allConstructs args

/-- The types of a list. -/
def TypeExpr.allConstructs : List TypeExpr → List Construct
  | [] => []
  | type :: types => type.constructs ++ allConstructs types

end

/-- The rule of an argument. -/
def ArgumentKind.rule : ArgumentKind → Rule
  | .path => .pathArg
  | .literal => .literalArg
  | .call => .callArg

/-- An argument. -/
def Argument.construct (argument : Argument) : Construct := ⟨argument.kind.rule, argument.span⟩

/-- An annotation and its arguments. -/
def Annotation.constructs (note : Annotation) : List Construct :=
  ⟨.note, note.span⟩ :: (note.arguments.getD []).map Argument.construct

/-- A parameter and its type. -/
def Param.constructs (param : Param) : List Construct :=
  ⟨.param, param.span⟩ :: TypeExpr.allConstructs param.type.toList

/-- A method, its annotations, its parameters and its result. -/
def MethodDef.constructs {Body : Type} (method : MethodDef Body) : List Construct :=
  ⟨.rpc, method.span⟩ :: (method.annotations.flatMap Annotation.constructs ++
    method.params.flatMap Param.constructs ++ TypeExpr.allConstructs method.result.toList)

/-- A block, its annotations, its bases and its methods. -/
def ImplDef.constructs {Body : Type} (impl : ImplDef Body) : List Construct :=
  ⟨.implBlock, impl.span⟩ :: (impl.annotations.flatMap Annotation.constructs ++
    TypeExpr.allConstructs impl.bases ++ impl.methods.flatMap MethodDef.constructs)

/-- The blocks of a definition and all that is in them. -/
def Definition.constructs {Body : Type} (definition : Definition Body) : List Construct :=
  definition.impls.flatMap ImplDef.constructs

namespace Grammar

/-! ## Constructs of trees -/

/-- The construct that a tree of a rule is. A method reports where its name stands. -/
def Rule.construct (rule : Rule) (children : List ParseTree) : List Construct :=
  match rule with
  | .implBlock | .note | .pathArg | .callArg | .literalArg | .param | .typeExpr =>
    [⟨rule, spanOf children⟩]
  | .rpc => [⟨rule, nameSpan children⟩]
  | _ => []

mutual

/-- The constructs of a tree, each before the ones in it. -/
def ParseTree.constructs : ParseTree → List Construct
  | .leaf _ => []
  | .node rule children =>
    rule.construct children ++ if rule = .callArg then [] else constructsOf children

/-- The constructs of trees, one tree after the other. -/
def constructsOf : List ParseTree → List Construct
  | [] => []
  | tree :: trees => tree.constructs ++ constructsOf trees

end

/-- The constructs of what a tree stands for. -/
def ParseTree.reported : ParseTree → List Construct
  | .leaf _ => []
  | .node rule children =>
    match rule with
    | .start => (definitionOf children).constructs
    | .implBlock => (implOf children).constructs
    | .rpc => (ParseTree.methods (.node .rpc children)).flatMap MethodDef.constructs
    | .note => (annotationOf children).constructs
    | .arguments => (argumentsOf children).map Argument.construct
    | .pathArg | .callArg | .literalArg =>
      (ParseTree.arguments (.node rule children)).map Argument.construct
    | .param => (ParseTree.params (.node .param children)).flatMap Param.constructs
    | .bases | .returnType => TypeExpr.allConstructs (typesOf children)
    | .typeExpr => TypeExpr.allConstructs (ParseTree.types (.node .typeExpr children))
    | _ => []

/-! ## Imports -/

/-- Whether a tree is an import. -/
def ParseTree.isImport : ParseTree → Bool
  | .node .plainImport _ => true
  | .node .fromImport _ => true
  | _ => false

/-- A tree that is an import stands for one import, and any other tree for none. -/
theorem ParseTree.imports_of_isImport (tree : ParseTree) :
    (tree.isImport = true ∧ ∃ item, tree.imports = [item]) ∨
      (tree.isImport = false ∧ tree.imports = []) := by
  unfold ParseTree.isImport
  split
  · rename_i children
    refine .inl ⟨rfl, ?_⟩
    rw [ParseTree.imports]
    split <;> exact ⟨_, rfl⟩
  · exact .inl ⟨rfl, _, rfl⟩
  · rename_i hplain hfrom
    refine .inr ⟨rfl, ?_⟩
    unfold ParseTree.imports
    split
    · exact absurd rfl (hplain _)
    · exact absurd rfl (hfrom _)
    · rfl

/-- The imports among trees, each as the import that it stands for. -/
theorem forall₂_importsOf (trees : List ParseTree) :
    List.Forall₂ (fun tree item => tree.imports = [item]) (trees.filter ParseTree.isImport)
      (importsOf trees) := by
  induction trees with
  | nil => exact .nil
  | cons tree trees ih =>
    rw [importsOf, List.flatMap_cons, ← importsOf]
    rcases tree.imports_of_isImport with ⟨himport, item, hitem⟩ | ⟨hother, hnone⟩
    · rw [List.filter_cons_of_pos himport, hitem]
      exact .cons hitem ih
    · rw [List.filter_cons_of_neg (by simp [hother]), hnone]
      exact ih

/-! ## Rules of children -/

mutual

/-- The rules of the trees that derive from a form. -/
def Form.rules : Form → List Rule
  | .terminal _ => []
  | .node rules => rules
  | .optional forms => rulesOf forms
  | .repeated forms => rulesOf forms

/-- The rules of the trees that derive from forms. -/
def rulesOf : List Form → List Rule
  | [] => []
  | form :: forms => form.rules ++ rulesOf forms

end

theorem rulesOf_append (forms others : List Form) :
    rulesOf (forms ++ others) = rulesOf forms ++ rulesOf others := by
  induction forms with
  | nil => rfl
  | cons form forms ih => rw [List.cons_append, rulesOf, ih, rulesOf, List.append_assoc]

/-- Among trees, only trees of some rules stand beside the tokens. -/
def Only (rules : List Rule) (trees : List ParseTree) : Prop :=
  ∀ rule children, .node rule children ∈ trees → rule ∈ rules ∧ rule.Derives children

/-- What derives from forms are tokens and trees of the rules in them. -/
theorem Derives.only {forms : List Form} {trees : List ParseTree} (h : Derives forms trees) :
    Only (rulesOf forms) trees := by
  induction h with
  | nil => exact fun _ _ hmem => absurd hmem List.not_mem_nil
  | leaf _ _ ih => exact fun rule children hmem => ih rule children (by simpa using hmem)
  | @node rules rule alternative forms children trees hrule halternative hchildren _ _ ih =>
    intro below list hmem
    rcases List.mem_cons.mp hmem with heq | hmem
    · obtain ⟨rfl, rfl⟩ := ParseTree.node.inj heq
      exact ⟨List.mem_append_left _ hrule, alternative, halternative, hchildren⟩
    · obtain ⟨hbelow, hderives⟩ := ih below list hmem
      exact ⟨List.mem_append_right _ hbelow, hderives⟩
  | skip _ ih =>
    intro below list hmem
    obtain ⟨hbelow, hderives⟩ := ih below list hmem
    exact ⟨List.mem_append_right _ hbelow, hderives⟩
  | take _ ih =>
    rw [rulesOf_append] at ih
    exact ih
  | stop _ ih =>
    intro below list hmem
    obtain ⟨hbelow, hderives⟩ := ih below list hmem
    exact ⟨List.mem_append_right _ hbelow, hderives⟩
  | again _ ih =>
    intro below list hmem
    obtain ⟨hbelow, hderives⟩ := ih below list hmem
    rw [rulesOf_append, rulesOf, Form.rules] at hbelow
    rw [rulesOf, Form.rules]
    simp only [List.mem_append] at hbelow ⊢
    exact ⟨hbelow.elim .inl id, hderives⟩

/-- What derives from forms one after the other are trees one after the other. -/
theorem Derives.exists_append {forms others : List Form} {trees : List ParseTree}
    (h : Derives (forms ++ others) trees) : ∃ first rest, trees = first ++ rest ∧
      Derives forms first ∧ Derives others rest := by
  generalize hall : forms ++ others = all at h
  -- Either the forms are used up, or the first of them is the one that the derivation begins with.
  induction h generalizing forms with
  | nil =>
    obtain ⟨rfl, rfl⟩ := List.append_eq_nil_iff.mp hall
    exact ⟨[], [], rfl, .nil, .nil⟩
  | leaf htoken hrest ih =>
    rcases List.append_eq_cons_iff.mp hall with ⟨rfl, rfl⟩ | ⟨forms, rfl, rfl⟩
    · exact ⟨[], _, rfl, .nil, .leaf htoken hrest⟩
    · obtain ⟨first, rest, rfl, hfirst, hrest⟩ := ih rfl
      exact ⟨_, rest, rfl, .leaf htoken hfirst, hrest⟩
  | node hrule halternative hchildren hrest _ ih =>
    rcases List.append_eq_cons_iff.mp hall with ⟨rfl, rfl⟩ | ⟨forms, rfl, rfl⟩
    · exact ⟨[], _, rfl, .nil, .node hrule halternative hchildren hrest⟩
    · obtain ⟨first, rest, rfl, hfirst, hrest⟩ := ih rfl
      exact ⟨_, rest, rfl, .node hrule halternative hchildren hfirst, hrest⟩
  | skip hrest ih =>
    rcases List.append_eq_cons_iff.mp hall with ⟨rfl, rfl⟩ | ⟨forms, rfl, rfl⟩
    · exact ⟨[], _, rfl, .nil, .skip hrest⟩
    · obtain ⟨first, rest, rfl, hfirst, hrest⟩ := ih rfl
      exact ⟨first, rest, rfl, .skip hfirst, hrest⟩
  | take hrest ih =>
    rcases List.append_eq_cons_iff.mp hall with ⟨rfl, rfl⟩ | ⟨forms, rfl, rfl⟩
    · exact ⟨[], _, rfl, .nil, .take hrest⟩
    · obtain ⟨first, rest, rfl, hfirst, hrest⟩ := ih (List.append_assoc _ _ _)
      exact ⟨first, rest, rfl, .take hfirst, hrest⟩
  | stop hrest ih =>
    rcases List.append_eq_cons_iff.mp hall with ⟨rfl, rfl⟩ | ⟨forms, rfl, rfl⟩
    · exact ⟨[], _, rfl, .nil, .stop hrest⟩
    · obtain ⟨first, rest, rfl, hfirst, hrest⟩ := ih rfl
      exact ⟨first, rest, rfl, .stop hfirst, hrest⟩
  | again hrest ih =>
    rcases List.append_eq_cons_iff.mp hall with ⟨rfl, rfl⟩ | ⟨forms, rfl, rfl⟩
    · exact ⟨[], _, rfl, .nil, .again hrest⟩
    · obtain ⟨first, rest, rfl, hfirst, hrest⟩ := ih (List.append_assoc _ (_ :: forms) _)
      exact ⟨first, rest, rfl, .again hfirst, hrest⟩

/-- The first of some forms and the others derive trees one after the other. -/
theorem Derives.exists_split {forms : List Form} {trees : List ParseTree} (count : Nat)
    (h : Derives forms trees) : ∃ first rest, trees = first ++ rest ∧
      Derives (forms.take count) first ∧ Derives (forms.drop count) rest := by
  rw [← List.take_append_drop count forms] at h
  exact h.exists_append

/-- A terminal is a token. -/
theorem Derives.exists_leaf {terminal : Terminal} {forms : List Form} {trees : List ParseTree}
    (h : Derives (.terminal terminal :: forms) trees) : ∃ token place rest,
      trees = .leaf ⟨token, place⟩ :: rest ∧ terminal.Takes token ∧ Derives forms rest := by
  cases h with
  | leaf htoken hrest => exact ⟨_, _, _, rfl, htoken, hrest⟩

/-- A rule is a tree. -/
theorem Derives.exists_node {rule : Rule} {forms : List Form} {trees : List ParseTree}
    (h : Derives (.node [rule] :: forms) trees) : ∃ children rest,
      trees = .node rule children :: rest ∧ rule.Derives children ∧ Derives forms rest := by
  cases h with
  | node hrule halternative hchildren hrest =>
    obtain rfl := List.mem_singleton.mp hrule
    exact ⟨_, _, rfl, ⟨_, halternative, hchildren⟩, hrest⟩

/-- Nothing derives from no forms. -/
theorem Derives.nil_iff {trees : List ParseTree} : Derives [] trees ↔ trees = [] :=
  ⟨fun h => by cases h; rfl, fun h => h ▸ .nil⟩

/-- What is optional derives or is left out. -/
theorem Derives.optional_iff {inner forms : List Form} {trees : List ParseTree} :
    Derives (.optional inner :: forms) trees ↔
      Derives (inner ++ forms) trees ∨ Derives forms trees :=
  ⟨fun h => by
    cases h with
    | skip hrest => exact .inr hrest
    | take hrest => exact .inl hrest,
    fun h => h.elim .take .skip⟩

/-- The rules of the trees below a tree of a rule. -/
def Rule.below (rule : Rule) : List Rule := rule.alternatives.flatMap rulesOf

/-- The children of a node are derived from the rules below its rule. -/
theorem Rule.Derives.only {rule : Rule} {children : List ParseTree} (h : rule.Derives children) :
    Only rule.below children := by
  obtain ⟨alternative, halternative, hchildren⟩ := h
  intro below list hmem
  obtain ⟨hbelow, hderives⟩ := hchildren.only below list hmem
  exact ⟨List.mem_flatMap.mpr ⟨alternative, halternative, hbelow⟩, hderives⟩

/-- A property of the trees of a derivation follows for a tree from the trees below it. -/
theorem Rule.Derives.induction {P : Rule → List ParseTree → Prop}
    (hstep : ∀ rule children, rule.Derives children →
      (∀ below list, .node below list ∈ children → P below list) → P rule children)
    {rule : Rule} {children : List ParseTree} (h : rule.Derives children) : P rule children := by
  have hbelow : ∀ {forms : List Form} {trees : List ParseTree}, Grammar.Derives forms trees →
      ∀ below list, .node below list ∈ trees → P below list := by
    intro forms trees htrees
    induction htrees with
    | nil => exact fun _ _ hmem => absurd hmem List.not_mem_nil
    | leaf _ _ ih => exact fun below list hmem => ih below list (by simpa using hmem)
    | node hrule halternative hchildren _ ihchildren ih =>
      intro below list hmem
      rcases List.mem_cons.mp hmem with heq | hmem
      · obtain ⟨rfl, rfl⟩ := ParseTree.node.inj heq
        exact hstep _ _ ⟨_, halternative, hchildren⟩ ihchildren
      · exact ih below list hmem
    | skip _ ih => exact ih
    | take _ ih => exact ih
    | stop _ ih => exact ih
    | again _ ih => exact ih
  obtain ⟨alternative, halternative, hchildren⟩ := h
  exact hstep rule children ⟨alternative, halternative, hchildren⟩ (hbelow hchildren)

namespace Only

variable {rules : List Rule} {trees : List ParseTree} {α : Type} {f g : ParseTree → List α}

/-- What trees stand for, by the rules of the trees. -/
theorem flatMap_congr (h : Only rules trees) (hleaf : ∀ placed, f (.leaf placed) = g (.leaf placed))
    (hnode : ∀ rule ∈ rules, ∀ children, f (.node rule children) = g (.node rule children)) :
    trees.flatMap f = trees.flatMap g := by
  refine List.flatMap_congr fun tree hmem => ?_
  cases tree with
  | leaf placed => exact hleaf placed
  | node rule children => exact hnode rule (h rule children hmem).1 children

/-- Trees of some rules are trees of more. -/
theorem mono (h : Only rules trees) {more : List Rule} (hrules : ∀ rule ∈ rules, rule ∈ more) :
    Only more trees := fun rule children hmem =>
  ⟨hrules rule (h rule children hmem).1, (h rule children hmem).2⟩

/-- Trees of one rule stand for nothing of another one. -/
theorem flatMap_eq_nil
    {rule : Rule} (h : Only [rule] trees) (hleaf : ∀ placed, f (.leaf placed) = [])
    (hnode : ∀ children, f (.node rule children) = []) : trees.flatMap f = [] := by
  have hnil : trees.flatMap f = trees.flatMap fun _ => [] :=
    h.flatMap_congr hleaf (List.forall_mem_singleton.mpr hnode)
  rw [hnil, List.flatMap_eq_nil_iff]
  exact fun _ _ => rfl

end Only

/-! ## What trees stand for -/

/-- The types of trees are those of each tree. -/
theorem typesOf_eq_flatMap (trees : List ParseTree) :
    typesOf trees = trees.flatMap ParseTree.types := by
  induction trees with
  | nil => rfl
  | cons tree trees ih => rw [typesOf, ih, List.flatMap_cons]

/-- The arguments of trees are those of each tree. -/
theorem argumentsOf_eq_flatMap (trees : List ParseTree) :
    argumentsOf trees = trees.flatMap ParseTree.arguments := by
  induction trees with
  | nil => rfl
  | cons tree trees ih => rw [argumentsOf, ih, List.flatMap_cons]

/-- The constructs of trees are those of each tree. -/
theorem constructsOf_eq_flatMap (trees : List ParseTree) :
    constructsOf trees = trees.flatMap ParseTree.constructs := by
  induction trees with
  | nil => rfl
  | cons tree trees ih => rw [constructsOf, ih, List.flatMap_cons]

theorem allConstructs_append (types others : List TypeExpr) :
    TypeExpr.allConstructs (types ++ others) =
      TypeExpr.allConstructs types ++ TypeExpr.allConstructs others := by
  induction types with
  | nil => rfl
  | cons type types ih =>
    rw [List.cons_append, TypeExpr.allConstructs, ih, TypeExpr.allConstructs, List.append_assoc]

theorem allConstructs_flatMap (trees : List ParseTree) (f : ParseTree → List TypeExpr) :
    TypeExpr.allConstructs (trees.flatMap f) =
      trees.flatMap fun tree => TypeExpr.allConstructs (f tree) := by
  induction trees with
  | nil => rfl
  | cons tree trees ih => rw [List.flatMap_cons, allConstructs_append, ih, List.flatMap_cons]

/-! ## One case for each rule -/

/-- A list of types, perhaps after a path. -/
private theorem reported_types {trees : List ParseTree} (h : Only [.path, .typeExpr] trees) :
    trees.flatMap ParseTree.reported = TypeExpr.allConstructs (typesOf trees) := by
  rw [typesOf_eq_flatMap, allConstructs_flatMap]
  refine h.flatMap_congr (fun _ => rfl) fun rule hrule children => ?_
  rcases List.mem_pair.mp hrule with rfl | rfl <;> rfl

/-- The arguments of an annotation. -/
private theorem reported_note {children : List ParseTree} (h : Rule.note.Derives children) :
    children.flatMap ParseTree.reported =
      ((annotationOf children).arguments.getD []).map Argument.construct := by
  obtain ⟨alternative, halternative, hchildren⟩ := h
  obtain rfl := List.mem_singleton.mp halternative
  obtain ⟨sign, place, _, rfl, _, hpath⟩ := hchildren.exists_leaf
  obtain ⟨path, _, rfl, _, hlist⟩ := hpath.exists_node
  rcases Derives.optional_iff.mp hlist with hlist | hnone
  · obtain ⟨list, _, rfl, _, hnil⟩ := hlist.exists_node
    obtain rfl := Derives.nil_iff.mp hnil
    simp [ParseTree.reported, annotationOf, ParseTree.listsArguments, argumentsOf,
      ParseTree.arguments]
  · obtain rfl := Derives.nil_iff.mp hnone
    rfl

/-- The type of a parameter. -/
private theorem constructs_param {children : List ParseTree} (h : Rule.param.Derives children) :
    ⟨.param, spanOf children⟩ :: children.flatMap ParseTree.reported =
      (ParseTree.params (.node .param children)).flatMap Param.constructs := by
  obtain ⟨alternative, halternative, hchildren⟩ := h
  obtain rfl := List.mem_singleton.mp halternative
  obtain ⟨token, place, _, rfl, hname, htype⟩ := hchildren.exists_leaf
  cases hname with
  | name text =>
    rcases Derives.optional_iff.mp htype with htype | hnone
    · obtain ⟨colon, other, _, rfl, _, htype⟩ := htype.exists_leaf
      obtain ⟨type, _, rfl, _, hnil⟩ := htype.exists_node
      obtain rfl := Derives.nil_iff.mp hnil
      simp [ParseTree.reported, ParseTree.params, Param.constructs, Grammar.names,
        ParseTree.names, typesOf, ParseTree.types, nameSpan, ParseTree.nameSpans, spanOf]
    · obtain rfl := Derives.nil_iff.mp hnone
      rfl

/-- The type of a result is one. -/
private theorem results_eq {children : List ParseTree}
    (h : Derives [.optional [.node [.returnType]], .terminal .body] children) :
    TypeExpr.allConstructs (children.flatMap ParseTree.results).head?.toList =
      children.flatMap ParseTree.reported := by
  rcases Derives.optional_iff.mp h with hresult | hbody
  · obtain ⟨result, _, rfl, ⟨alternative, halternative, hresult⟩, hbody⟩ := hresult.exists_node
    obtain rfl := List.mem_singleton.mp halternative
    obtain ⟨arrow, place, _, rfl, _, htype⟩ := hresult.exists_leaf
    obtain ⟨type, _, rfl, _, hnil⟩ := htype.exists_node
    obtain rfl := Derives.nil_iff.mp hnil
    obtain ⟨body, other, _, rfl, _, hnil⟩ := hbody.exists_leaf
    obtain rfl := Derives.nil_iff.mp hnil
    simp [ParseTree.results, ParseTree.reported, typesOf, ParseTree.types]
  · obtain ⟨body, place, _, rfl, _, hnil⟩ := hbody.exists_leaf
    obtain rfl := Derives.nil_iff.mp hnil
    rfl

/-- The annotations before a block or a method. -/
private theorem reported_notes {trees : List ParseTree} (h : Only [.note] trees) :
    trees.flatMap ParseTree.reported = (annotationsOf trees).flatMap Annotation.constructs := by
  rw [annotationsOf, List.flatMap_assoc]
  refine h.flatMap_congr (fun _ => rfl) (List.forall_mem_singleton.mpr fun list => ?_)
  exact (List.flatMap_singleton _ _).symm

/-- The annotations, the parameters and the result of a method. -/
private theorem reported_rpc {children : List ParseTree} (h : Rule.rpc.Derives children) :
    children.flatMap ParseTree.reported =
      (annotationsOf children).flatMap Annotation.constructs ++
        (children.flatMap ParseTree.params).flatMap Param.constructs ++
        TypeExpr.allConstructs (children.flatMap ParseTree.results).head?.toList := by
  obtain ⟨alternative, halternative, hchildren⟩ := h
  obtain rfl := List.mem_singleton.mp halternative
  -- The annotations are among the first four forms, the parameters among the next two.
  obtain ⟨notes, _, rfl, hnotes, hrest⟩ := hchildren.exists_split 4
  obtain ⟨params, result, rfl, hparams, hresult⟩ := hrest.exists_split 2
  have hnote : Only [.note] notes := hnotes.only.mono (by decide)
  have hparam : Only [.param] params := hparams.only.mono (by decide)
  have hreturn : Only [.returnType] result := hresult.only.mono (by decide)
  have hreported : params.flatMap ParseTree.reported =
      (params.flatMap ParseTree.params).flatMap Param.constructs := by
    rw [List.flatMap_assoc]
    exact hparam.flatMap_congr (fun _ => rfl) (List.forall_mem_singleton.mpr fun _ => rfl)
  have hannotations : annotationsOf params = [] ∧ annotationsOf result = [] :=
    ⟨hparam.flatMap_eq_nil (fun _ => rfl) fun _ => rfl,
      hreturn.flatMap_eq_nil (fun _ => rfl) fun _ => rfl⟩
  have hothers : notes.flatMap ParseTree.params = [] ∧ result.flatMap ParseTree.params = [] :=
    ⟨hnote.flatMap_eq_nil (fun _ => rfl) fun _ => rfl,
      hreturn.flatMap_eq_nil (fun _ => rfl) fun _ => rfl⟩
  have hresults : notes.flatMap ParseTree.results = [] ∧ params.flatMap ParseTree.results = [] :=
    ⟨hnote.flatMap_eq_nil (fun _ => rfl) fun _ => rfl,
      hparam.flatMap_eq_nil (fun _ => rfl) fun _ => rfl⟩
  simp only [List.flatMap_append, annotationsOf_append, reported_notes hnote, hreported,
    ← results_eq hresult, hannotations, hothers, hresults, List.append_nil, List.nil_append,
    List.append_assoc]

/-- The annotations, the bases and the methods of a block. -/
private theorem reported_implBlock {children : List ParseTree}
    (h : Rule.implBlock.Derives children) :
    children.flatMap ParseTree.reported =
      (annotationsOf children).flatMap Annotation.constructs ++
        TypeExpr.allConstructs (children.flatMap ParseTree.bases) ++
        (children.flatMap ParseTree.methods).flatMap MethodDef.constructs := by
  obtain ⟨alternative, halternative, hchildren⟩ := h
  obtain rfl := List.mem_singleton.mp halternative
  -- The annotations are among the first three forms, the bases among the next two.
  obtain ⟨notes, _, rfl, hnotes, hrest⟩ := hchildren.exists_split 3
  obtain ⟨bases, methods, rfl, hbases, hmethods⟩ := hrest.exists_split 2
  have hnote : Only [.note] notes := hnotes.only.mono (by decide)
  have hbase : Only [.bases] bases := hbases.only.mono (by decide)
  have hrpc : Only [.rpc] methods := hmethods.only.mono (by decide)
  have hreportedBases : bases.flatMap ParseTree.reported =
      TypeExpr.allConstructs (bases.flatMap ParseTree.bases) := by
    rw [allConstructs_flatMap]
    exact hbase.flatMap_congr (fun _ => rfl) (List.forall_mem_singleton.mpr fun _ => rfl)
  have hreportedMethods : methods.flatMap ParseTree.reported =
      (methods.flatMap ParseTree.methods).flatMap MethodDef.constructs := by
    rw [List.flatMap_assoc]
    exact hrpc.flatMap_congr (fun _ => rfl) (List.forall_mem_singleton.mpr fun _ => rfl)
  have hannotations : annotationsOf bases = [] ∧ annotationsOf methods = [] :=
    ⟨hbase.flatMap_eq_nil (fun _ => rfl) fun _ => rfl,
      hrpc.flatMap_eq_nil (fun _ => rfl) fun _ => rfl⟩
  have hothers : notes.flatMap ParseTree.bases = [] ∧ methods.flatMap ParseTree.bases = [] :=
    ⟨hnote.flatMap_eq_nil (fun _ => rfl) fun _ => rfl,
      hrpc.flatMap_eq_nil (fun _ => rfl) fun _ => rfl⟩
  have hrpcs : notes.flatMap ParseTree.methods = [] ∧ bases.flatMap ParseTree.methods = [] :=
    ⟨hnote.flatMap_eq_nil (fun _ => rfl) fun _ => rfl,
      hbase.flatMap_eq_nil (fun _ => rfl) fun _ => rfl⟩
  simp only [List.flatMap_append, annotationsOf_append, reported_notes hnote, hreportedBases,
    hreportedMethods, hannotations, hothers, hrpcs, List.append_nil, List.nil_append,
    List.append_assoc]

/-- The items of a file. -/
private theorem reported_start {children : List ParseTree}
    (h : Only [.plainImport, .fromImport, .implBlock] children) :
    children.flatMap ParseTree.reported = (definitionOf children).constructs := by
  rw [Definition.constructs, definitionOf, implsOf, List.flatMap_assoc]
  refine h.flatMap_congr (fun _ => rfl) fun rule hrule list => ?_
  simp only [List.mem_cons, List.not_mem_nil, or_false] at hrule
  rcases hrule with rfl | rfl | rfl
  · rfl
  · rfl
  · exact (List.flatMap_singleton _ _).symm

/-- A list of arguments. -/
private theorem reported_arguments {children : List ParseTree}
    (h : Only [.pathArg, .callArg, .literalArg] children) :
    children.flatMap ParseTree.reported = (argumentsOf children).map Argument.construct := by
  rw [argumentsOf_eq_flatMap, List.map_flatMap]
  refine h.flatMap_congr (fun _ => rfl) fun rule hrule list => ?_
  simp only [List.mem_cons, List.not_mem_nil, or_false] at hrule
  rcases hrule with rfl | rfl | rfl
  · rfl
  · rfl
  · rfl

/-- Modules, names to import and paths have no constructs in them. -/
private theorem reported_names {children : List ParseTree}
    (h : Only [.moduleRef, .importName, .dottedName, .path] children) :
    children.flatMap ParseTree.reported = [] := by
  have hnil : children.flatMap ParseTree.reported = children.flatMap fun _ => [] := by
    refine h.flatMap_congr (fun _ => rfl) fun rule hrule list => ?_
    simp only [List.mem_cons, List.not_mem_nil, or_false] at hrule
    rcases hrule with rfl | rfl | rfl | rfl
    · rfl
    · rfl
    · rfl
    · rfl
  rw [hnil, List.flatMap_eq_nil_iff]
  exact fun _ _ => rfl

/-- A tree has the constructs of what it stands for. -/
theorem Rule.Derives.constructs_eq {rule : Rule} {children : List ParseTree}
    (h : rule.Derives children) :
    ParseTree.constructs (.node rule children) = ParseTree.reported (.node rule children) := by
  refine h.induction (P := fun rule children =>
    ParseTree.constructs (.node rule children) = ParseTree.reported (.node rule children))
    fun rule children hderives hbelow => ?_
  have hchildren : constructsOf children = children.flatMap ParseTree.reported := by
    rw [constructsOf_eq_flatMap]
    refine List.flatMap_congr fun tree hmem => ?_
    cases tree with
    | leaf placed => rfl
    | node below list => exact hbelow below list hmem
  have honly := hderives.only
  rw [ParseTree.constructs, hchildren]
  cases rule with
  | start => exact reported_start (honly.mono (by decide))
  | plainImport => exact reported_names (honly.mono (by decide))
  | fromImport => exact reported_names (honly.mono (by decide))
  | moduleRef => exact reported_names (honly.mono (by decide))
  | importName => exact reported_names (honly.mono (by decide))
  | dottedName => exact reported_names (honly.mono (by decide))
  | path => exact reported_names (honly.mono (by decide))
  | implBlock => exact congrArg (List.cons _) (reported_implBlock hderives)
  | rpc =>
    refine (congrArg (List.cons _) (reported_rpc hderives)).trans ?_
    simp [ParseTree.reported, ParseTree.methods, MethodDef.constructs, MethodHead.method, headOf]
  | note => exact congrArg (List.cons _) (reported_note hderives)
  | arguments => exact reported_arguments (honly.mono (by decide))
  | pathArg => exact congrArg (List.cons _) (reported_names (honly.mono (by decide)))
  | callArg => rfl
  | literalArg => exact congrArg (List.cons _) (reported_names (honly.mono (by decide)))
  | param => exact constructs_param hderives
  | bases => exact reported_types (honly.mono (by decide))
  | returnType => exact reported_types (honly.mono (by decide))
  | typeExpr =>
    refine (congrArg (List.cons _) (reported_types (honly.mono (by decide)))).trans ?_
    simp [ParseTree.reported, ParseTree.types, TypeExpr.allConstructs, TypeExpr.constructs]

/-- The definition that a derivation stands for reports the constructs of the derivation, each once
and in the order of the text. -/
theorem constructs_definitionOf {trees : List ParseTree} (h : Rule.start.Derives trees) :
    (definitionOf trees).constructs = constructsOf trees := by
  have hstart : constructsOf trees = (definitionOf trees).constructs := h.constructs_eq
  exact hstart.symm

end Grammar

end Interpose
