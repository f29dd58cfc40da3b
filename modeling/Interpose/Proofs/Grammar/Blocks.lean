import Interpose.Proofs.Grammar.Parts
import Mathlib.Data.List.Forall2

/-!
# Derivations of blocks

What has been read so far of a service block, of its bases or of one of its methods is what the
children of its tree stand for. The annotations before a block or a method are the first children of
its tree, so a tree is open as soon as one of them has been read.
-/

namespace Interpose

open Source Grammar

/-! ## Annotations before a block or a method -/

/-- Annotations that have been read, as the first children of a tree that goes on with some
forms. -/
structure Noted (rule : Rule) (forms : List Form) (notes : List Annotation)
    (trees : List ParseTree) :
    Prop where
  goes : Goes rule trees (.repeated [.node [.note]] :: forms)
  notes : List.Forall₂ (fun note tree => ∃ children, tree = .node .note children ∧
    note.Spells children) notes trees

namespace Noted

variable {rule : Rule} {forms : List Form} {notes : List Annotation}
  {trees children : List ParseTree}

theorem nil (hrule : .repeated [.node [.note]] :: forms ∈ rule.alternatives) :
    Noted rule forms [] [] := ⟨Goes.start hrule, .nil⟩

/-- A further annotation joins the ones before it. -/
theorem add (h : Noted rule forms notes trees) {note : Annotation} (hnote : note.Spells children) :
    Noted rule forms (notes ++ [note]) (trees ++ [.node .note children]) :=
  ⟨h.goes.again.node List.mem_cons_self hnote.derives,
    List.rel_append h.notes (.cons ⟨children, rfl, hnote⟩ .nil)⟩

/-- Where there are no annotations, no tree is open. -/
theorem eq_nil (h : Noted rule forms [] trees) : trees = [] := List.forall₂_nil_left_iff.mp h.notes

/-- The trees stand for the annotations. -/
theorem annotationsOf_eq (h : Noted rule forms notes trees) : annotationsOf trees = notes := by
  have hnotes := h.notes
  clear h
  induction hnotes with
  | nil => rfl
  | cons hfirst _ ih =>
    obtain ⟨children, rfl, hnote⟩ := hfirst
    rw [annotationsOf, List.flatMap_cons, ← annotationsOf, ih, ParseTree.annotations, hnote.image]
    rfl

/-- The trees stand for nothing else. -/
theorem flatMap_eq_nil {α : Type}
    {f : ParseTree → List α} (hf : ∀ children, f (.node .note children) = [])
    (h : Noted rule forms notes trees) : trees.flatMap f = [] := by
  have hnotes := h.notes
  clear h
  induction hnotes with
  | nil => rfl
  | cons hfirst _ ih =>
    obtain ⟨children, rfl, _⟩ := hfirst
    rw [List.flatMap_cons, hf, ih]
    rfl

/-- The trees begin where the first annotation does. -/
theorem spanOf_append {note : Annotation} (h : Noted rule forms (note :: notes) trees)
    (others : List ParseTree) : spanOf (trees ++ others) = note.span := by
  obtain ⟨tree, rest, ⟨children, rfl, hnote⟩, _, rfl⟩ := List.forall₂_cons_left_iff.mp h.notes
  have hyields : yields (.node .note children :: rest ++ others) =
      yields (children ++ (rest ++ others)) := by simp
  rw [spanOf, hyields, ← spanOf, Grammar.spanOf_append hnote.first, ← hnote.image]
  rfl

end Noted

/-! ## Blocks -/

/-- What follows the bases of a block. -/
def blockBody : List Form := [.mark .openBrace, .repeated [.node [.rpc]], .mark .closeBrace]

/-- What follows a method of a block. -/
def moreMethods : List Form := [.repeated [.node [.rpc]], .mark .closeBrace]

/-- What follows the annotations of a block. -/
def blockHead : List Form := .word .implWord :: .name :: .optional [.node [.bases]] :: blockBody

/-- A service block that has been read, as children of its tree that leave some forms. -/
structure ImplDef.Spells (impl : OpenImpl) (forms : List Form) (trees : List ParseTree) : Prop where
  goes : Goes .implBlock trees forms
  image : implOf trees = impl
  named : names trees ≠ []
  first : yields trees ≠ []

/-- Children that follow a block's name only add to its bases, its methods and its annotations. -/
theorem implOf_append {trees : List ParseTree} (hnamed : names trees ≠ [])
    (hfirst : yields trees ≠ [])
    (others : List ParseTree) : implOf (trees ++ others) =
      { implOf trees with
        bases := (implOf trees).bases ++ others.flatMap ParseTree.bases
        methods := (implOf trees).methods ++ others.flatMap ParseTree.methods
        annotations := (implOf trees).annotations ++ annotationsOf others } := by
  obtain ⟨name, rest, hnames⟩ := List.exists_cons_of_ne_nil hnamed
  simp [implOf, hnames, spanOf_append hfirst]

namespace ImplDef

variable {impl : OpenImpl} {forms : List Form} {trees children : List ParseTree}

/-- A block begins with its annotations, its keyword and its name. -/
theorem spells_start {notes : List Annotation} (h : Noted .implBlock blockHead notes trees)
    (name : String) (place other : Place) : Spells
      ⟨name, [], [], notes, spanOf (trees ++ [.leaf ⟨.word .implWord, place⟩])⟩
      (.optional [.node [.bases]] :: blockBody)
      (trees ++ [.leaf ⟨.word .implWord, place⟩] ++ [.leaf ⟨.name name, other⟩]) := by
  refine ⟨(h.goes.stop.word place).name name other, ?_, ?_, by simp⟩
  · have hnames : names trees = [] := h.flatMap_eq_nil fun _ => rfl
    have hbases : trees.flatMap ParseTree.bases = [] := h.flatMap_eq_nil fun _ => rfl
    have hmethods : trees.flatMap ParseTree.methods = [] := h.flatMap_eq_nil fun _ => rfl
    rw [implOf, spanOf_append (by simp)]
    simp only [names_append, annotationsOf_append, List.flatMap_append, hnames, hbases, hmethods,
      h.annotationsOf_eq]
    simp [names, ParseTree.names, ParseTree.bases, ParseTree.methods, annotationsOf,
      ParseTree.annotations]
  · simp [names, ParseTree.names]

/-- A mark that comes next leaves the block as it is. -/
theorem Spells.mark {mark : Mark} (h : impl.Spells (.mark mark :: forms) trees) (place : Place) :
    impl.Spells forms (trees ++ [.leaf ⟨.mark mark, place⟩]) := by
  refine ⟨h.goes.mark place, ?_, by simp [h.named], by simp⟩
  rw [implOf_append h.named h.first, h.image]
  simp [ParseTree.bases, ParseTree.methods, annotationsOf, ParseTree.annotations]

/-- A list of bases that comes next joins the block. -/
theorem Spells.addBases (h : impl.Spells (.node [.bases] :: forms) trees)
    (hbases : Rule.bases.Derives children) :
    Spells { impl with bases := impl.bases ++ typesOf children } forms
      (trees ++ [.node .bases children]) := by
  refine ⟨h.goes.node List.mem_cons_self hbases, ?_, by simp [h.named], by simp [h.first]⟩
  rw [implOf_append h.named h.first, h.image]
  simp [ParseTree.bases, ParseTree.methods, annotationsOf, ParseTree.annotations]

/-- A method that comes next joins the block. -/
theorem Spells.addMethod (h : impl.Spells moreMethods trees) (hrpc : Rule.rpc.Derives children)
    {method : MethodDef Fenced} (hmethod : ParseTree.methods (.node .rpc children) = [method]) :
    Spells { impl with methods := impl.methods ++ [method] } moreMethods
      (trees ++ [.node .rpc children]) := by
  refine ⟨h.goes.again.node List.mem_cons_self hrpc, ?_, by simp [h.named], by simp [h.first]⟩
  rw [implOf_append h.named h.first, h.image]
  simp [ParseTree.bases, hmethod, annotationsOf, ParseTree.annotations]

/-- A brace completes the block. -/
theorem Spells.close (h : impl.Spells moreMethods trees) (place : Place) :
    Rule.implBlock.Derives (trees ++ [.leaf ⟨.mark .closeBrace, place⟩]) ∧
      implOf (trees ++ [.leaf ⟨.mark .closeBrace, place⟩]) = impl := by
  have hlast : impl.Spells [.mark .closeBrace] trees := ⟨h.goes.stop, h.image, h.named, h.first⟩
  have hclosed := hlast.mark place
  exact ⟨hclosed.goes.derives, hclosed.image⟩

end ImplDef

/-! ## Bases -/

/-- The bases of a block that have been read, as children of their tree, after which another one or
the end of the list follows. The block itself has none of them yet. -/
structure ImplDef.Ready (impl : OpenImpl) (trees list : List ParseTree) : Prop where
  block : ImplDef.Spells { impl with bases := [] } (.node [.bases] :: blockBody) trees
  lists : Lists .bases (.node [.typeExpr]) [] list
  bases : typesOf list = impl.bases

/-- The bases of a block that have been read, as children of their tree that leave some forms. -/
structure ImplDef.Listed (impl : OpenImpl) (forms : List Form) (trees list : List ParseTree) :
    Prop where
  block : ImplDef.Spells { impl with bases := [] } (.node [.bases] :: blockBody) trees
  goes : Goes .bases list forms
  bases : typesOf list = impl.bases

namespace ImplDef

variable {impl : OpenImpl} {trees list children : List ParseTree}

/-- A parenthesis opens the list of a block's bases. -/
theorem Spells.ready (h : impl.Spells (.optional [.node [.bases]] :: blockBody) trees)
    (hbases : impl.bases = []) (place : Place) :
    impl.Ready trees [.leaf ⟨.mark .openParen, place⟩] := by
  have hstart : Goes .bases [] [.mark .openParen, .listed (.node [.typeExpr]), .mark .closeParen] :=
    Goes.start (by simp [Rule.alternatives])
  have himpl : { impl with bases := [] } = impl := by rw [← hbases]
  exact ⟨⟨h.goes.take, h.image.trans himpl.symm, h.named, h.first⟩, (hstart.mark place).lists,
    hbases.symm⟩

/-- A base joins the list. -/
theorem Ready.add (h : impl.Ready trees list) {type : TypeExpr} (htype : type.Spells children) :
    Listed { impl with bases := impl.bases ++ [type] } (afterItem (.node [.typeExpr]) []) trees
      (list ++ [.node .typeExpr children]) := by
  refine ⟨h.block, h.lists.next.node List.mem_cons_self htype.derives, ?_⟩
  rw [typesOf_append, h.bases, typesOf, htype.types]
  rfl

/-- A comma makes room for another base. -/
theorem Listed.comma (h : impl.Listed (afterItem (.node [.typeExpr]) []) trees list)
    (place : Place) : impl.Ready trees (list ++ [.leaf ⟨.mark .comma, place⟩]) := by
  refine ⟨h.block, h.goes.comma place, ?_⟩
  rw [typesOf_append, h.bases]
  exact List.append_nil _

theorem Listed.last (h : impl.Listed (afterItem (.node [.typeExpr]) []) trees list) :
    impl.Listed [.mark .closeParen] trees list := ⟨h.block, h.goes.last, h.bases⟩

theorem Ready.last (h : impl.Ready trees list) : impl.Listed [.mark .closeParen] trees list :=
  ⟨h.block, h.lists.last, h.bases⟩

/-- A parenthesis completes the list, which joins the block. -/
theorem Listed.close (h : impl.Listed [.mark .closeParen] trees list) (place : Place) :
    impl.Spells blockBody
      (trees ++ [.node .bases (list ++ [.leaf ⟨.mark .closeParen, place⟩])]) := by
  have hbases : typesOf (list ++ [.leaf ⟨.mark .closeParen, place⟩]) = impl.bases := by
    rw [typesOf_append, h.bases]
    exact List.append_nil _
  have hadded := h.block.addBases (h.goes.mark place).derives
  rw [hbases] at hadded
  exact hadded

end ImplDef

/-! ## Methods -/

/-- What follows the parameters of a method. -/
def rpcEnd : List Form := [.optional [.node [.returnType]], .terminal .body]

/-- What follows the annotations of a method. -/
def rpcHead : List Form :=
  .word .rpcWord :: .name :: .mark .openParen :: .listed (.node [.param]) :: .mark .closeParen ::
    rpcEnd

/-- What is known of a method before its body, as children of its tree that leave some forms. -/
structure MethodHead.Spells (head : MethodHead) (forms : List Form) (trees : List ParseTree) :
    Prop where
  goes : Goes .rpc trees forms
  image : headOf trees = head
  named : names trees ≠ []
  placed : trees.flatMap ParseTree.nameSpans ≠ []
  results : trees.flatMap ParseTree.results = []
  bodies : trees.flatMap ParseTree.bodies = []

/-- The parameters of a method after which another one or the end of the list follows. -/
structure MethodHead.Ready (head : MethodHead) (trees : List ParseTree) : Prop where
  next : head.Spells (.node [.param] :: afterItem (.node [.param]) rpcEnd) trees
  last : head.Spells (.mark .closeParen :: rpcEnd) trees

/-- Children that follow a method's name only add to its annotations and its parameters. -/
theorem headOf_append {trees : List ParseTree} (hnamed : names trees ≠ [])
    (hplaced : trees.flatMap ParseTree.nameSpans ≠ []) (others : List ParseTree) :
    headOf (trees ++ others) =
      { headOf trees with
        annotations := (headOf trees).annotations ++ annotationsOf others
        params := (headOf trees).params ++ others.flatMap ParseTree.params } := by
  obtain ⟨name, rest, hnames⟩ := List.exists_cons_of_ne_nil hnamed
  obtain ⟨span, spans, hspans⟩ := List.exists_cons_of_ne_nil hplaced
  simp [headOf, nameSpan, hnames, hspans]

namespace MethodHead

variable {head : MethodHead} {forms : List Form} {trees children : List ParseTree}

/-- A method begins with its annotations, its keyword and its name. -/
theorem spells_start {notes : List Annotation} (h : Noted .rpc rpcHead notes trees)
    (name : String) (place other : Place) : Spells ⟨name, .ofPlace other, notes, []⟩
      (.mark .openParen :: .listed (.node [.param]) :: .mark .closeParen :: rpcEnd)
      (trees ++ [.leaf ⟨.word .rpcWord, place⟩] ++ [.leaf ⟨.name name, other⟩]) := by
  have hnames : names trees = [] := h.flatMap_eq_nil fun _ => rfl
  have hspans : trees.flatMap ParseTree.nameSpans = [] := h.flatMap_eq_nil fun _ => rfl
  have hparams : trees.flatMap ParseTree.params = [] := h.flatMap_eq_nil fun _ => rfl
  have hresults : trees.flatMap ParseTree.results = [] := h.flatMap_eq_nil fun _ => rfl
  have hbodies : trees.flatMap ParseTree.bodies = [] := h.flatMap_eq_nil fun _ => rfl
  refine ⟨(h.goes.stop.word place).name name other, ?_, ?_, ?_, ?_, ?_⟩
  · simp only [headOf, nameSpan, names_append, annotationsOf_append, List.flatMap_append, hnames,
      hspans, hparams, h.annotationsOf_eq]
    simp [names, ParseTree.names, ParseTree.nameSpans, ParseTree.params, annotationsOf,
      ParseTree.annotations]
  · simp [names, ParseTree.names]
  · simp [ParseTree.nameSpans]
  · simp [hresults, ParseTree.results]
  · simp [hbodies, ParseTree.bodies]

/-- A mark that comes next leaves the method as it is. -/
theorem Spells.mark {mark : Mark} (h : head.Spells (.mark mark :: forms) trees) (place : Place) :
    head.Spells forms (trees ++ [.leaf ⟨.mark mark, place⟩]) := by
  refine ⟨h.goes.mark place, ?_, by simp [h.named], by simp [h.placed],
    by simp [h.results, ParseTree.results], by simp [h.bodies, ParseTree.bodies]⟩
  rw [headOf_append h.named h.placed, h.image]
  simp [ParseTree.params, annotationsOf, ParseTree.annotations]

/-- A parenthesis after the name opens the parameters. -/
theorem Spells.ready (h : head.Spells
    (.mark .openParen :: .listed (.node [.param]) :: .mark .closeParen :: rpcEnd) trees)
    (place : Place) : head.Ready (trees ++ [.leaf ⟨.mark .openParen, place⟩]) := by
  have hopen := h.mark place
  exact ⟨{ hopen with goes := hopen.goes.lists.next }, { hopen with goes := hopen.goes.lists.last }⟩

/-- A parameter joins the ones before it. -/
theorem Ready.add (h : head.Ready trees) (hderives : Rule.param.Derives children) {param : Param}
    (hparam : ParseTree.params (.node .param children) = [param]) :
    (head.add param).Spells (afterItem (.node [.param]) rpcEnd)
      (trees ++ [.node .param children]) := by
  have hnext := h.next
  refine ⟨hnext.goes.node List.mem_cons_self hderives, ?_, by simp [hnext.named],
    by simp [hnext.placed], by simp [hnext.results, ParseTree.results],
    by simp [hnext.bodies, ParseTree.bodies]⟩
  rw [headOf_append hnext.named hnext.placed, hnext.image]
  simp [hparam, annotationsOf, ParseTree.annotations, MethodHead.add]

/-- A name is a parameter without a type. -/
theorem Ready.addName (h : head.Ready trees) (name : String) (place : Place) :
    (head.add ⟨name, none, .ofPlace place⟩).Spells (afterItem (.node [.param]) rpcEnd)
      (trees ++ [.node .param [.leaf ⟨.name name, place⟩]]) := by
  have hstart : Goes .param [] [.name, .optional [.mark .colon, .node [.typeExpr]]] :=
    Goes.start (by simp [Rule.alternatives])
  exact h.add (hstart.name name place).skip.derives rfl

/-- A name with a type after a colon is a parameter. -/
theorem Ready.addTyped (h : head.Ready trees) (name : String) (place other : Place)
    {type : TypeExpr} (htype : type.Spells children) :
    (head.add ⟨name, some type, .ofPlace place⟩).Spells (afterItem (.node [.param]) rpcEnd)
      (trees ++ [.node .param [.leaf ⟨.name name, place⟩, .leaf ⟨.mark .colon, other⟩,
        .node .typeExpr children]]) := by
  have hstart : Goes .param [] [.name, .optional [.mark .colon, .node [.typeExpr]]] :=
    Goes.start (by simp [Rule.alternatives])
  have hcolon : Goes .param [.leaf ⟨.name name, place⟩, .leaf ⟨.mark .colon, other⟩]
      [.node [.typeExpr]] := (hstart.name name place).take.mark other
  have hderives : Rule.param.Derives [.leaf ⟨.name name, place⟩, .leaf ⟨.mark .colon, other⟩,
      .node .typeExpr children] := (hcolon.node List.mem_cons_self htype.derives).derives
  have htypes : typesOf [.leaf ⟨.name name, place⟩, .leaf ⟨.mark .colon, other⟩,
      .node .typeExpr children] = [type] := by
    simp [typesOf, htype.types]
  refine h.add hderives ?_
  rw [ParseTree.params, htypes]
  rfl

/-- A comma makes room for another parameter. -/
theorem Spells.comma (h : head.Spells (afterItem (.node [.param]) rpcEnd) trees)
    (place : Place) : head.Ready (trees ++ [.leaf ⟨.mark .comma, place⟩]) := by
  have hcomma : head.Spells (.node [.param] :: afterItem (.node [.param]) rpcEnd)
      (trees ++ [.leaf ⟨.mark .comma, place⟩]) := Spells.mark { h with goes := h.goes.again } place
  exact ⟨hcomma, { hcomma with goes := (h.goes.comma place).last }⟩

theorem Spells.last (h : head.Spells (afterItem (.node [.param]) rpcEnd) trees) :
    head.Spells (.mark .closeParen :: rpcEnd) trees := { h with goes := h.goes.last }

/-- A method before its body, with the result that it declares. -/
structure Ended (head : MethodHead) (result : Option TypeExpr) (trees : List ParseTree) : Prop where
  goes : Goes .rpc trees [.terminal .body]
  image : headOf trees = head
  named : names trees ≠ []
  placed : trees.flatMap ParseTree.nameSpans ≠ []
  results : trees.flatMap ParseTree.results = result.toList
  bodies : trees.flatMap ParseTree.bodies = []

/-- A method need not declare a result. -/
theorem Spells.ended (h : head.Spells rpcEnd trees) : head.Ended none trees :=
  { h with goes := h.goes.skip }

/-- The type after an arrow is the result of a method. -/
theorem Spells.endedWith (h : head.Spells rpcEnd trees) {type : TypeExpr}
    (htype : type.Spells children) (place : Place) : head.Ended (some type)
      (trees ++ [.node .returnType [.leaf ⟨.mark .arrow, place⟩, .node .typeExpr children]]) := by
  have hstart : Goes .returnType [] [.mark .arrow, .node [.typeExpr]] :=
    Goes.start (by simp [Rule.alternatives])
  have harrow : Goes .returnType [.leaf ⟨.mark .arrow, place⟩] [.node [.typeExpr]] :=
    hstart.mark place
  have hderives := (harrow.node List.mem_cons_self htype.derives).derives
  have htypes : typesOf [.leaf ⟨.mark .arrow, place⟩, .node .typeExpr children] = [type] := by
    simp [typesOf, htype.types]
  refine ⟨h.goes.take.node List.mem_cons_self hderives, ?_, by simp [h.named], by simp [h.placed],
    by simp [h.results, ParseTree.results, htypes], by simp [h.bodies, ParseTree.bodies]⟩
  rw [headOf_append h.named h.placed, h.image]
  simp [ParseTree.params, annotationsOf, ParseTree.annotations]

/-- A body completes a method. -/
theorem Ended.method {result : Option TypeExpr} (h : head.Ended result trees) (text : String)
    (place : Place) : Rule.rpc.Derives (trees ++ [.leaf ⟨.body text, place⟩]) ∧
      ParseTree.methods (.node .rpc (trees ++ [.leaf ⟨.body text, place⟩])) =
        [head.method result ⟨text, .ofPlace place⟩] := by
  refine ⟨(h.goes.leaf (.body text) place).derives, ?_⟩
  have himage : headOf (trees ++ [.leaf ⟨.body text, place⟩]) = head := by
    rw [headOf_append h.named h.placed, h.image]
    simp [ParseTree.params, annotationsOf, ParseTree.annotations]
  rw [ParseTree.methods, himage]
  simp [h.results, h.bodies, ParseTree.results, ParseTree.bodies]

end MethodHead

end Interpose
