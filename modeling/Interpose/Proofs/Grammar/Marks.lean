import Interpose.Proofs.Definition.Feeding
import Interpose.Proofs.Definition.Reserved
import Interpose.Proofs.Grammar.Signs
import Interpose.Proofs.Source.Pieces

/-!
# Constructs and their tokens

The constructs of what a tree stands for are pointed at by tokens of the tree: by different ones,
and in their order. An annotation is pointed at by its first token, a path by its first name, a
method by its name.
-/

namespace Interpose

open Source Grammar

/-! ## Signs of tokens -/

/-- A token stands at its place. -/
def Source.Placed.sign (placed : Placed) : Sign := ⟨.ofPlace placed.place, placed.token.lexeme⟩

namespace Grammar

/-- The tokens of trees as signs. -/
def marks (trees : List ParseTree) : List Sign := (yields trees).map Placed.sign

/-- All tokens of trees are lexemes of their terminals. -/
def Lexemes (trees : List ParseTree) : Prop := ∀ placed ∈ yields trees, placed.token.IsLexeme

@[simp] theorem marks_nil : marks [] = [] := rfl

@[simp] theorem marks_leaf (placed : Placed) (trees : List ParseTree) :
    marks (.leaf placed :: trees) = placed.sign :: marks trees := rfl

@[simp] theorem marks_node (rule : Rule) (children trees : List ParseTree) :
    marks (.node rule children :: trees) = marks children ++ marks trees := by
  simp [marks]

@[simp] theorem marks_append (trees others : List ParseTree) :
    marks (trees ++ others) = marks trees ++ marks others := by
  simp [marks]

/-- The marks of trees are those of their tokens. -/
theorem marks_eq_flatMap (trees : List ParseTree) :
    marks trees = trees.flatMap fun tree => tree.yield.map Placed.sign := by
  induction trees with
  | nil => rfl
  | cons tree trees ih => rw [marks, yields_cons, List.map_append, ← marks, ih, List.flatMap_cons]

/-- The tokens below a node are lexemes when all tokens of its trees are. -/
theorem Lexemes.below {rule : Rule} {trees children : List ParseTree} (h : Lexemes trees)
    (hmem : .node rule children ∈ trees) : Lexemes children := by
  obtain ⟨before, after, rfl⟩ := List.append_of_mem hmem
  exact fun placed hplaced => h placed (by simp [hplaced])

/-! ## Names -/

/-- The signs of types are those of each type. -/
theorem allSigns_eq_flatMap (types : List TypeExpr) :
    TypeExpr.allSigns types = types.flatMap TypeExpr.signs := by
  induction types with
  | nil => rfl
  | cons type types ih => rw [TypeExpr.allSigns, ih, List.flatMap_cons]

/-- No name goes on with what ends the first name of a path. -/
theorem ne_of_isNameRest {c : Char} (h : isNameRest c = true) : (c ≠ '.' && c ≠ '(') = true := by
  rw [Bool.and_eq_true, decide_eq_true_eq, decide_eq_true_eq]
  constructor
  · rintro rfl
    exact absurd h (by decide)
  · rintro rfl
    exact absurd h (by decide)

/-- The first name of a path is what stands before its end. -/
theorem firstSegment_append {name rest : List Char} (hname : isName name)
    (hrest : ∀ c ∈ rest.head?, c = '.' ∨ c = '(') : firstSegment (name ++ rest) = name := by
  refine takeWhile_append_of_head ?_ fun c hc => ?_
  · exact List.all_eq_true.mpr fun c hmem => ne_of_isNameRest (isNameRest_of_isName hname hmem)
  · rcases hrest c hc with rfl | rfl <;> decide

/-- A path begins with the token that it is pointed at by, whatever parenthesis follows it. -/
theorem exists_mark_of_path {path rest : List ParseTree} (h : Rule.path.Derives path)
    (hlexemes : Lexemes (.node .path path :: rest)) : ∃ word more,
      marks (.node .path path :: rest) =
        ⟨spanOf (.node .path path :: rest), word⟩ :: more ++ marks rest ∧
      ∀ tail : List Char, (∀ c ∈ tail.head?, c = '(') →
        firstSegment ((pathText (.node .path path :: rest)).toList ++ tail) = word := by
  obtain ⟨alternative, halternative, hpath⟩ := h
  obtain rfl := List.mem_singleton.mp halternative
  obtain ⟨token, place, points, rfl, hname, _⟩ := hpath.exists_leaf
  cases hname with
  | name text =>
    have hword : isName text.toList := hlexemes ⟨.name text, place⟩ (by simp)
    refine ⟨text.toList, marks points, by simp [spanOf, Placed.sign, Token.lexeme], ?_⟩
    intro tail htail
    have htext : (pathText (.node .path (.leaf ⟨.name text, place⟩ :: points) :: rest)).toList =
        text.toList ++ (Grammar.names points).flatMap fun name => '.' :: name.toList := by
      rw [← toList_intercalate_point]
      rfl
    rw [htext, List.append_assoc]
    refine firstSegment_append hword fun c hc => ?_
    cases hnames : Grammar.names points with
    | nil =>
      rw [hnames] at hc
      exact .inr (htail c hc)
    | cons name names =>
      rw [hnames] at hc
      exact .inl (Option.some.inj hc).symm

/-! ## Signs of trees -/

/-- The signs of what a tree stands for. -/
def ParseTree.signs : ParseTree → List Sign
  | .leaf _ => []
  | .node rule children =>
    match rule with
    | .start => (definitionOf children).signs
    | .implBlock => (implOf children).signs
    | .rpc => (ParseTree.methods (.node .rpc children)).flatMap MethodDef.signs
    | .note => (annotationOf children).signs
    | .arguments => (argumentsOf children).map Argument.sign
    | .pathArg | .callArg | .literalArg =>
      (ParseTree.arguments (.node rule children)).map Argument.sign
    | .param => (ParseTree.params (.node .param children)).flatMap Param.signs
    | .bases | .returnType => TypeExpr.allSigns (typesOf children)
    | .typeExpr => TypeExpr.allSigns (ParseTree.types (.node .typeExpr children))
    | _ => []

/-- Trees side by side point at tokens of their own. -/
def Points (trees : List ParseTree) : Prop :=
  ∀ tree ∈ trees, tree.signs.Sublist (tree.yield.map Placed.sign)

/-- What trees point at stands among their marks. -/
theorem Points.sublist {trees : List ParseTree} (h : Points trees) :
    (trees.flatMap ParseTree.signs).Sublist (marks trees) := by
  rw [marks_eq_flatMap]
  exact List.Sublist.flatMap_right trees h

/-- Trees of some rules that stand for items side by side point as the items do. -/
theorem Points.items_sublist {Item : Type} {rules : List Rule} {trees : List ParseTree}
    {items : ParseTree → List Item} {signs : Item → List Sign} (hpoints : Points trees)
    (h : Only rules trees) (hleaf : ∀ placed, items (.leaf placed) = [])
    (hnode : ∀ rule ∈ rules, ∀ children,
      ParseTree.signs (.node rule children) = (items (.node rule children)).flatMap signs) :
    ((trees.flatMap items).flatMap signs).Sublist (marks trees) := by
  have hsigns : trees.flatMap ParseTree.signs = (trees.flatMap items).flatMap signs := by
    rw [List.flatMap_assoc]
    exact h.flatMap_congr (fun placed => by rw [hleaf]; rfl) hnode
  exact hsigns ▸ hpoints.sublist

/-! ## One case for each rule -/

variable {children trees : List ParseTree}

/-- A list of types, perhaps after a path. -/
private theorem signs_types (h : Only [.path, .typeExpr] trees) (hpoints : Points trees) :
    (TypeExpr.allSigns (typesOf trees)).Sublist (marks trees) := by
  rw [allSigns_eq_flatMap, typesOf_eq_flatMap]
  refine hpoints.items_sublist h (fun _ => rfl) fun rule hrule children => ?_
  rcases List.mem_pair.mp hrule with rfl | rfl
  · rfl
  · exact allSigns_eq_flatMap _

/-- A type is pointed at by the first token of its path. -/
private theorem signs_typeExpr (h : Rule.typeExpr.Derives children) (hlexemes : Lexemes children)
    (hpoints : Points children) :
    (ParseTree.signs (.node .typeExpr children)).Sublist (marks children) := by
  obtain ⟨alternative, halternative, hchildren⟩ := h
  obtain rfl := List.mem_singleton.mp halternative
  obtain ⟨path, args, rfl, hpath, hargs⟩ := hchildren.exists_node
  obtain ⟨word, more, hmarks, hword⟩ := exists_mark_of_path hpath hlexemes
  have htypes := signs_types (hargs.only.mono (by decide)) (List.forall_mem_cons.mp hpoints).2
  have hfirst := hword [] (by simp)
  rw [List.append_nil] at hfirst
  have hsigns : ParseTree.signs (.node .typeExpr (.node .path path :: args)) =
      ⟨spanOf (.node .path path :: args), word⟩ :: TypeExpr.allSigns (typesOf args) := by
    rw [← hfirst]
    simp [ParseTree.signs, ParseTree.types, TypeExpr.allSigns, TypeExpr.signs, typesOf]
  rw [hsigns, hmarks]
  exact .cons_cons _ (htypes.trans (List.sublist_append_right _ _))

/-- An argument that begins with a path is pointed at by the path's first token. -/
private theorem signs_pathed {rule : Rule} {path rest : List ParseTree} {tail : List Char}
    (hpath : Rule.path.Derives path) (hlexemes : Lexemes (.node .path path :: rest))
    (htail : ∀ c ∈ tail.head?, c = '(')
    (hsigns : ParseTree.signs (.node rule (.node .path path :: rest)) =
      [⟨spanOf (.node .path path :: rest),
        firstSegment ((pathText (.node .path path :: rest)).toList ++ tail)⟩]) :
    (ParseTree.signs (.node rule (.node .path path :: rest))).Sublist
      (marks (.node .path path :: rest)) := by
  obtain ⟨word, more, hmarks, hword⟩ := exists_mark_of_path hpath hlexemes
  rw [hsigns, hword tail htail, hmarks]
  exact .cons_cons _ (List.nil_sublist _)

/-- The sign of an argument that is a path is a mark of its tokens. -/
private theorem signs_pathArg (h : Rule.pathArg.Derives children) (hlexemes : Lexemes children) :
    (ParseTree.signs (.node .pathArg children)).Sublist (marks children) := by
  obtain ⟨alternative, halternative, hchildren⟩ := h
  obtain rfl := List.mem_singleton.mp halternative
  obtain ⟨path, rest, rfl, hpath, _⟩ := hchildren.exists_node
  have hnone : ∀ c ∈ ([] : List Char).head?, c = '(' := by simp
  refine signs_pathed hpath hlexemes hnone ?_
  rw [List.append_nil]
  rfl

/-- The sign of an argument that is a call is a mark of its tokens. -/
private theorem signs_callArg (h : Rule.callArg.Derives children) (hlexemes : Lexemes children) :
    (ParseTree.signs (.node .callArg children)).Sublist (marks children) := by
  obtain ⟨alternative, halternative, hchildren⟩ := h
  obtain rfl := List.mem_singleton.mp halternative
  obtain ⟨path, rest, rfl, hpath, _⟩ := hchildren.exists_node
  have hlist : ∀ c ∈ ('(' :: ((Argument.listText (argumentsOf (.node .path path :: rest))).toList ++
      [')'])).head?, c = '(' := by simp
  refine signs_pathed hpath hlexemes hlist ?_
  simp [ParseTree.signs, ParseTree.arguments, Argument.sign, Argument.word]

/-- The sign of an argument that is a literal is a mark of its tokens. -/
private theorem signs_literalArg (h : Rule.literalArg.Derives children) :
    (ParseTree.signs (.node .literalArg children)).Sublist (marks children) := by
  obtain ⟨alternative, halternative, hchildren⟩ := h
  rcases List.mem_pair.mp halternative with rfl | rfl
  · obtain ⟨token, place, rest, rfl, htoken, _⟩ := hchildren.exists_leaf
    cases htoken
    exact .cons_cons _ (List.nil_sublist _)
  · obtain ⟨token, place, rest, rfl, htoken, _⟩ := hchildren.exists_leaf
    cases htoken
    exact .cons_cons _ (List.nil_sublist _)

/-- A list of arguments. -/
private theorem signs_arguments (h : Only [.pathArg, .callArg, .literalArg] trees)
    (hpoints : Points trees) :
    ((argumentsOf trees).map Argument.sign).Sublist (marks trees) := by
  rw [argumentsOf_eq_flatMap, List.map_eq_flatMap]
  refine hpoints.items_sublist h (fun _ => rfl) fun rule hrule list => ?_
  simp only [List.mem_cons, List.not_mem_nil, or_false] at hrule
  rcases hrule with rfl | rfl | rfl <;> exact List.map_eq_flatMap

/-- An annotation is pointed at by its sign, before its arguments. -/
private theorem signs_note (h : Rule.note.Derives children) (hpoints : Points children) :
    (ParseTree.signs (.node .note children)).Sublist (marks children) := by
  obtain ⟨alternative, halternative, hchildren⟩ := h
  obtain rfl := List.mem_singleton.mp halternative
  obtain ⟨sign, place, _, rfl, hsign, hpath⟩ := hchildren.exists_leaf
  obtain ⟨path, _, rfl, _, hlist⟩ := hpath.exists_node
  cases hsign
  rcases Derives.optional_iff.mp hlist with hlist | hnone
  · obtain ⟨list, _, rfl, _, hnil⟩ := hlist.exists_node
    obtain rfl := Derives.nil_iff.mp hnil
    have hlist : ((argumentsOf list).map Argument.sign).Sublist (marks list) :=
      hpoints (.node .arguments list) (by simp)
    have hsigns : ParseTree.signs (.node .note [.leaf ⟨.mark .at, place⟩, .node .path path,
        .node .arguments list]) =
        ⟨.ofPlace place, Mark.spelling .at⟩ :: (argumentsOf list).map Argument.sign := by
      simp [ParseTree.signs, annotationOf, Annotation.signs, ParseTree.listsArguments, argumentsOf,
        ParseTree.arguments, spanOf]
    rw [hsigns]
    simp only [marks_leaf, marks_node, marks_nil, List.append_nil]
    exact .cons_cons _ (hlist.trans (List.sublist_append_right _ _))
  · obtain rfl := Derives.nil_iff.mp hnone
    exact .cons_cons _ (List.nil_sublist _)

/-- A parameter is pointed at by its name, before its type. -/
private theorem signs_param (h : Rule.param.Derives children) (hpoints : Points children) :
    (ParseTree.signs (.node .param children)).Sublist (marks children) := by
  obtain ⟨alternative, halternative, hchildren⟩ := h
  obtain rfl := List.mem_singleton.mp halternative
  obtain ⟨token, place, _, rfl, hname, htype⟩ := hchildren.exists_leaf
  cases hname
  rcases Derives.optional_iff.mp htype with htype | hnone
  · obtain ⟨colon, other, _, rfl, _, htype⟩ := htype.exists_leaf
    obtain ⟨type, _, rfl, _, hnil⟩ := htype.exists_node
    obtain rfl := Derives.nil_iff.mp hnil
    have htype : (ParseTree.signs (.node .typeExpr type)).Sublist (marks type) :=
      hpoints (.node .typeExpr type) (by simp)
    refine .cons_cons _ (.cons _ ?_)
    simpa [ParseTree.signs, ParseTree.types, typesOf, marks] using htype
  · obtain rfl := Derives.nil_iff.mp hnone
    exact .cons_cons _ (List.nil_sublist _)

/-- What repeats trees of one rule holds nothing but such trees. -/
theorem Derives.exists_node_of_mem {rule : Rule} {trees : List ParseTree}
    (h : Derives [.repeated [.node [rule]]] trees) :
    ∀ tree ∈ trees, ∃ children, tree = .node rule children := by
  generalize hforms : [Form.repeated [.node [rule]]] = forms at h
  have hgoes : forms = [.repeated [.node [rule]]] ∨
      forms = [.node [rule], .repeated [.node [rule]]] ∨ forms = [] := .inl hforms.symm
  clear hforms
  induction h with
  | nil => simp
  | leaf htoken _ _ => simp at hgoes
  | @node rules below alternative forms children trees hrule halternative hchildren hrest _ ih =>
    rcases hgoes with hrepeated | hnode | hnil
    · simp at hrepeated
    · obtain ⟨hrules, rfl⟩ := List.cons.inj hnode
      obtain rfl : rules = [rule] := by simpa using hrules
      obtain rfl := List.mem_singleton.mp hrule
      exact List.forall_mem_cons.mpr ⟨⟨children, rfl⟩, ih (.inl rfl)⟩
    · simp at hnil
  | skip hrest ih => simp at hgoes
  | take hrest ih => simp at hgoes
  | stop hrest ih =>
    rcases hgoes with hrepeated | hnode | hnil
    · obtain ⟨_, rfl⟩ := List.cons.inj hrepeated
      exact ih (.inr (.inr rfl))
    · simp at hnode
    · simp at hnil
  | again hrest ih =>
    rcases hgoes with hrepeated | hnode | hnil
    · obtain ⟨hinner, rfl⟩ := List.cons.inj hrepeated
      obtain rfl := Form.repeated.inj hinner
      exact ih (.inr (.inl rfl))
    · simp at hnode
    · simp at hnil

/-- Annotations before a block or a method, and no token among them. -/
private structure Notes (notes : List ParseTree) : Prop where
  names : Grammar.names notes = []
  spans : notes.flatMap ParseTree.nameSpans = []
  only : Only [.note] notes
  nodes : ∀ tree ∈ notes, ∃ children, tree = .node .note children

/-- What derives from annotations is annotations. -/
private theorem notes_of_derives {notes : List ParseTree}
    (h : Derives [.repeated [.node [.note]]] notes) : Notes notes := by
  have hnodes := h.exists_node_of_mem
  refine ⟨?_, ?_, h.only.mono (by decide), hnodes⟩
  · refine List.flatMap_eq_nil_iff.mpr fun tree hmem => ?_
    obtain ⟨children, rfl⟩ := hnodes tree hmem
    rfl
  · refine List.flatMap_eq_nil_iff.mpr fun tree hmem => ?_
    obtain ⟨children, rfl⟩ := hnodes tree hmem
    rfl

/-- What annotations point at stands among their marks. -/
private theorem Notes.sublist {notes : List ParseTree} (h : Notes notes) (hpoints : Points notes) :
    ((annotationsOf notes).flatMap Annotation.signs).Sublist (marks notes) := by
  refine hpoints.items_sublist h.only (fun _ => rfl) (List.forall_mem_singleton.mpr fun list => ?_)
  exact (List.flatMap_singleton _ _).symm

/-- The type of a result is one. -/
private theorem signs_result (h : Derives [.optional [.node [.returnType]], .terminal .body] trees)
    (hpoints : Points trees) :
    (TypeExpr.allSigns (trees.flatMap ParseTree.results).head?.toList).Sublist (marks trees) := by
  rcases Derives.optional_iff.mp h with hresult | hbody
  · obtain ⟨result, _, rfl, ⟨alternative, halternative, hresult⟩, hbody⟩ := hresult.exists_node
    obtain rfl := List.mem_singleton.mp halternative
    obtain ⟨arrow, place, _, rfl, _, htype⟩ := hresult.exists_leaf
    obtain ⟨type, _, rfl, _, hnil⟩ := htype.exists_node
    obtain rfl := Derives.nil_iff.mp hnil
    obtain ⟨body, other, _, rfl, _, hnil⟩ := hbody.exists_leaf
    obtain rfl := Derives.nil_iff.mp hnil
    have hsigns := hpoints.sublist
    simpa [ParseTree.results, ParseTree.signs, typesOf, ParseTree.types] using hsigns
  · obtain ⟨body, place, _, rfl, _, hnil⟩ := hbody.exists_leaf
    obtain rfl := Derives.nil_iff.mp hnil
    exact List.nil_sublist _

/-- A method is pointed at by its name, between its annotations and its parameters. -/
private theorem signs_rpc (h : Rule.rpc.Derives children) (hpoints : Points children) :
    (ParseTree.signs (.node .rpc children)).Sublist (marks children) := by
  obtain ⟨alternative, halternative, hchildren⟩ := h
  obtain rfl := List.mem_singleton.mp halternative
  obtain ⟨notes, _, rfl, hnotes, hrest⟩ := hchildren.exists_split 1
  obtain ⟨keyword, first, _, rfl, hkeyword, hrest⟩ := hrest.exists_leaf
  obtain ⟨token, place, _, rfl, hname, hrest⟩ := hrest.exists_leaf
  obtain ⟨params, result, rfl, hparams, hresult⟩ := hrest.exists_split 3
  cases hkeyword
  cases hname with
  | name text =>
    have hnotes := notes_of_derives hnotes
    have hparam : Only [.param] params := hparams.only.mono (by decide)
    have hreturn : Only [.returnType] result := hresult.only.mono (by decide)
    obtain ⟨hpointsNotes, hpointsRest⟩ := List.forall_mem_append.mp hpoints
    obtain ⟨hpointsParams, hpointsResult⟩ := List.forall_mem_append.mp
      (List.forall_mem_cons.mp (List.forall_mem_cons.mp hpointsRest).2).2
    have hsignsParams : ((params.flatMap ParseTree.params).flatMap Param.signs).Sublist
        (marks params) :=
      Points.items_sublist hpointsParams hparam (fun _ => rfl)
        (List.forall_mem_singleton.mpr fun _ => rfl)
    have hannotations : params.flatMap ParseTree.annotations = [] ∧
        result.flatMap ParseTree.annotations = [] :=
      ⟨hparam.flatMap_eq_nil (fun _ => rfl) fun _ => rfl,
        hreturn.flatMap_eq_nil (fun _ => rfl) fun _ => rfl⟩
    have hothers : notes.flatMap ParseTree.params = [] ∧ result.flatMap ParseTree.params = [] :=
      ⟨hnotes.only.flatMap_eq_nil (fun _ => rfl) fun _ => rfl,
        hreturn.flatMap_eq_nil (fun _ => rfl) fun _ => rfl⟩
    have hresults : notes.flatMap ParseTree.results = [] ∧ params.flatMap ParseTree.results = [] :=
      ⟨hnotes.only.flatMap_eq_nil (fun _ => rfl) fun _ => rfl,
        hparam.flatMap_eq_nil (fun _ => rfl) fun _ => rfl⟩
    have hnames : notes.flatMap ParseTree.names = [] := hnotes.names
    have hsigns : ParseTree.signs (.node .rpc (notes ++ .leaf ⟨.word .rpcWord, first⟩ ::
        .leaf ⟨.name text, place⟩ :: (params ++ result))) =
        (annotationsOf notes).flatMap Annotation.signs ++ ⟨.ofPlace place, text.toList⟩ ::
          ((params.flatMap ParseTree.params).flatMap Param.signs ++
            TypeExpr.allSigns (result.flatMap ParseTree.results).head?.toList) := by
      simp [ParseTree.signs, ParseTree.methods, MethodDef.signs, MethodHead.method, headOf,
        Grammar.names, nameSpan, annotationsOf, ParseTree.annotations, ParseTree.names,
        ParseTree.nameSpans, ParseTree.params, ParseTree.results, hnames, hnotes.spans,
        hannotations, hothers, hresults]
    rw [hsigns]
    simp only [marks_append, marks_leaf]
    exact (hnotes.sublist hpointsNotes).append (.cons _ (.cons_cons _
      (hsignsParams.append (signs_result hresult hpointsResult))))

/-- What is in a block is pointed at in the order of the text. -/
private theorem signs_implBlock (h : Rule.implBlock.Derives children) (hpoints : Points children) :
    (ParseTree.signs (.node .implBlock children)).Sublist (marks children) := by
  obtain ⟨alternative, halternative, hchildren⟩ := h
  obtain rfl := List.mem_singleton.mp halternative
  obtain ⟨notes, _, rfl, hnotes, hrest⟩ := hchildren.exists_split 1
  obtain ⟨bases, methods, rfl, hbases, hmethods⟩ := hrest.exists_split 4
  have hnotes := notes_of_derives hnotes
  have hbase : Only [.bases] bases := hbases.only.mono (by decide)
  have hrpc : Only [.rpc] methods := hmethods.only.mono (by decide)
  obtain ⟨hpointsNotes, hpointsRest⟩ := List.forall_mem_append.mp hpoints
  obtain ⟨hpointsBases, hpointsMethods⟩ := List.forall_mem_append.mp hpointsRest
  have hsignsBases : (TypeExpr.allSigns (bases.flatMap ParseTree.bases)).Sublist (marks bases) := by
    rw [allSigns_eq_flatMap]
    exact Points.items_sublist hpointsBases hbase (fun _ => rfl)
      (List.forall_mem_singleton.mpr fun _ => allSigns_eq_flatMap _)
  have hsignsMethods : ((methods.flatMap ParseTree.methods).flatMap MethodDef.signs).Sublist
      (marks methods) :=
    Points.items_sublist hpointsMethods hrpc (fun _ => rfl)
      (List.forall_mem_singleton.mpr fun _ => rfl)
  have hannotations : annotationsOf bases = [] ∧ annotationsOf methods = [] :=
    ⟨hbase.flatMap_eq_nil (fun _ => rfl) fun _ => rfl,
      hrpc.flatMap_eq_nil (fun _ => rfl) fun _ => rfl⟩
  have hothers : notes.flatMap ParseTree.bases = [] ∧ methods.flatMap ParseTree.bases = [] :=
    ⟨hnotes.only.flatMap_eq_nil (fun _ => rfl) fun _ => rfl,
      hrpc.flatMap_eq_nil (fun _ => rfl) fun _ => rfl⟩
  have hrpcs : notes.flatMap ParseTree.methods = [] ∧ bases.flatMap ParseTree.methods = [] :=
    ⟨hnotes.only.flatMap_eq_nil (fun _ => rfl) fun _ => rfl,
      hbase.flatMap_eq_nil (fun _ => rfl) fun _ => rfl⟩
  have hsigns : ParseTree.signs (.node .implBlock (notes ++ (bases ++ methods))) =
      (annotationsOf notes).flatMap Annotation.signs ++
        (TypeExpr.allSigns (bases.flatMap ParseTree.bases) ++
          (methods.flatMap ParseTree.methods).flatMap MethodDef.signs) := by
    simp only [ParseTree.signs, implOf, ImplDef.signs, annotationsOf_append, List.flatMap_append,
      hannotations, hothers, hrpcs, List.append_nil, List.nil_append]
  rw [hsigns, marks_append, marks_append]
  exact (hnotes.sublist hpointsNotes).append (hsignsBases.append hsignsMethods)

/-- The items of a file. -/
private theorem signs_start (h : Only [.plainImport, .fromImport, .implBlock] trees)
    (hpoints : Points trees) : ((definitionOf trees).signs).Sublist (marks trees) := by
  refine hpoints.items_sublist h (fun _ => rfl) fun rule hrule list => ?_
  simp only [List.mem_cons, List.not_mem_nil, or_false] at hrule
  rcases hrule with rfl | rfl | rfl
  · rfl
  · rfl
  · exact (List.flatMap_singleton _ _).symm

/-- What a tree stands for is pointed at by different tokens of the tree, in their order. -/
theorem Rule.Derives.signs_sublist {rule : Rule} (h : rule.Derives children)
    (hlexemes : Lexemes children) :
    (ParseTree.signs (.node rule children)).Sublist (marks children) := by
  revert hlexemes
  refine h.induction (P := fun rule children => Lexemes children →
    (ParseTree.signs (.node rule children)).Sublist (marks children))
    fun rule children hderives hbelow hlexemes => ?_
  have hpoints : Points children := by
    intro tree hmem
    cases tree with
    | leaf placed => exact List.nil_sublist _
    | node below list => exact hbelow below list hmem (hlexemes.below hmem)
  have honly := hderives.only
  cases rule with
  | start => exact signs_start (honly.mono (by decide)) hpoints
  | implBlock => exact signs_implBlock hderives hpoints
  | rpc => exact signs_rpc hderives hpoints
  | note => exact signs_note hderives hpoints
  | arguments => exact signs_arguments (honly.mono (by decide)) hpoints
  | pathArg => exact signs_pathArg hderives hlexemes
  | callArg => exact signs_callArg hderives hlexemes
  | literalArg => exact signs_literalArg hderives
  | param => exact signs_param hderives hpoints
  | bases => exact signs_types (honly.mono (by decide)) hpoints
  | returnType => exact signs_types (honly.mono (by decide)) hpoints
  | typeExpr => exact signs_typeExpr hderives hlexemes hpoints
  | _ => exact List.nil_sublist _

/-! ## Blocks -/

/-- A block is pointed at by its first token. -/
private theorem sign_implBlock (h : Rule.implBlock.Derives children) :
    [(implOf children).sign].Sublist (marks children) := by
  obtain ⟨alternative, halternative, hchildren⟩ := h
  obtain rfl := List.mem_singleton.mp halternative
  obtain ⟨notes, rest, rfl, hnotes, hrest⟩ := hchildren.exists_split 1
  obtain ⟨keyword, place, more, rfl, hkeyword, hmore⟩ := hrest.exists_leaf
  cases hkeyword
  have hnotes := notes_of_derives hnotes
  cases notes with
  | nil =>
    have hnone : annotationsOf more = [] := by
      have hthose : Only [.bases, .rpc] more := hmore.only.mono (by decide)
      have hnil : more.flatMap ParseTree.annotations = more.flatMap fun _ => [] := by
        refine hthose.flatMap_congr (fun _ => rfl) fun rule hrule list => ?_
        rcases List.mem_pair.mp hrule with rfl | rfl <;> rfl
      exact hnil.trans (List.flatMap_eq_nil_iff.mpr fun _ _ => rfl)
    have hsign : (implOf (.leaf ⟨.word .implWord, place⟩ :: more)).sign =
        Placed.sign ⟨.word .implWord, place⟩ := by
      have hlist : annotationsOf (.leaf ⟨.word .implWord, place⟩ :: more) = [] := hnone
      simp [ImplDef.sign, implOf, hlist, spanOf, Placed.sign, Token.lexeme]
    rw [List.nil_append, hsign]
    exact .cons_cons _ (List.nil_sublist _)
  | cons note notes =>
    obtain ⟨list, rfl⟩ := hnotes.nodes note List.mem_cons_self
    obtain ⟨_, alternative, halternative, hlist⟩ := hnotes.only .note list List.mem_cons_self
    obtain rfl := List.mem_singleton.mp halternative
    obtain ⟨sign, there, after, rfl, hsign, _⟩ := hlist.exists_leaf
    cases hsign
    have hsign : ∀ others,
        (implOf (.node .note (.leaf ⟨.mark .at, there⟩ :: after) :: others)).sign =
          Placed.sign ⟨.mark .at, there⟩ := fun others => by
      simp [ImplDef.sign, implOf, spanOf, Placed.sign, Token.lexeme, annotationsOf,
        ParseTree.annotations]
    rw [List.cons_append, hsign]
    exact .cons_cons _ (List.nil_sublist _)

/-- The blocks of a file are pointed at by different tokens, in their order. -/
theorem blockSigns_sublist (h : Rule.start.Derives trees) :
    (definitionOf trees).blockSigns.Sublist (marks trees) := by
  have hsigns : (definitionOf trees).blockSigns =
      trees.flatMap fun tree => tree.impls.map ImplDef.sign := by
    rw [Definition.blockSigns, definitionOf, implsOf, List.map_flatMap]
  rw [hsigns, marks_eq_flatMap]
  refine List.Sublist.flatMap_right trees fun tree hmem => ?_
  cases tree with
  | leaf placed => exact List.nil_sublist _
  | node rule children =>
    obtain ⟨hrule, hderives⟩ := h.only rule children hmem
    have hbelow : ∀ rule ∈ Rule.start.below,
        rule ∈ [Rule.plainImport, .fromImport, .implBlock] := by decide
    have hrule := hbelow rule hrule
    simp only [List.mem_cons, List.not_mem_nil, or_false] at hrule
    rcases hrule with rfl | rfl | rfl
    · exact List.nil_sublist _
    · exact List.nil_sublist _
    · exact sign_implBlock hderives

end Grammar

end Interpose
