import Interpose.Definition.Reading
import Interpose.Proofs.Grammar.Basic

/-!
# What trees stand for

The definition that a derivation of a definition file stands for. Each tree of a rule stands for one
part of it: trees side by side stand for the parts in their order, and no other token than names,
literals, dots and bodies says anything.
-/

namespace Interpose.Grammar

open Source

/-! ## Names and paths -/

/-- The name that a token is. -/
def ParseTree.names : ParseTree → List String
  | .leaf ⟨.name text, _⟩ => [text]
  | _ => []

/-- The names among trees. -/
def names (trees : List ParseTree) : List String := trees.flatMap ParseTree.names

/-- Where trees begin. -/
def spanOf (trees : List ParseTree) : Span :=
  match yields trees with
  | [] => .none
  | placed :: _ => .ofPlace placed.place

/-- Where the names among trees stand. -/
def ParseTree.nameSpans : ParseTree → List Span
  | .leaf ⟨.name _, place⟩ => [.ofPlace place]
  | _ => []

/-- Where the name among trees stands. -/
def nameSpan (trees : List ParseTree) : Span := (trees.flatMap ParseTree.nameSpans).headD .none

/-- The path that a tree is. -/
def ParseTree.paths : ParseTree → List String
  | .node .path children => [".".intercalate (Grammar.names children)]
  | _ => []

/-- The path among trees. -/
def pathText (trees : List ParseTree) : String := (trees.flatMap ParseTree.paths).headD ""

/-! ## Types -/

mutual

/-- The type that a tree is. -/
def ParseTree.types : ParseTree → List TypeExpr
  | .node .typeExpr children => [{
    name := pathText children
    args := typesOf children
    span := spanOf children }]
  | _ => []

/-- The types among trees. -/
def typesOf : List ParseTree → List TypeExpr
  | [] => []
  | tree :: trees => tree.types ++ typesOf trees

end

/-! ## Annotations -/

/-- The literal that a token is. -/
def ParseTree.literals : ParseTree → List String
  | .leaf ⟨.quoted text, _⟩ => [text]
  | .leaf ⟨.number text, _⟩ => [text]
  | _ => []

mutual

/-- The argument that a tree is, or the arguments that it lists. -/
def ParseTree.arguments : ParseTree → List Argument
  | .node .pathArg children => [⟨.path, pathText children, spanOf children⟩]
  | .node .callArg children =>
    [⟨.call, pathText children ++ "(" ++ Argument.listText (argumentsOf children) ++ ")",
      spanOf children⟩]
  | .node .literalArg children =>
    [⟨.literal, (children.flatMap ParseTree.literals).headD "", spanOf children⟩]
  | .node .arguments children => argumentsOf children
  | _ => []

/-- The arguments among trees. -/
def argumentsOf : List ParseTree → List Argument
  | [] => []
  | tree :: trees => tree.arguments ++ argumentsOf trees

end

/-- Whether a tree lists arguments. -/
def ParseTree.listsArguments : ParseTree → Bool
  | .node .arguments _ => true
  | _ => false

/-- The annotation whose children trees are. -/
def annotationOf (children : List ParseTree) : Annotation where
  name := pathText children
  arguments := if children.any ParseTree.listsArguments then some (argumentsOf children) else none
  span := spanOf children

/-- The annotation that a tree is. -/
def ParseTree.annotations : ParseTree → List Annotation
  | .node .note children => [annotationOf children]
  | _ => []

/-- The annotations among trees. -/
def annotationsOf (trees : List ParseTree) : List Annotation := trees.flatMap ParseTree.annotations

/-! ## Imports -/

/-- The module that a tree is. -/
def ParseTree.dottedNames : ParseTree → List String
  | .node .dottedName children => [".".intercalate (Grammar.names children)]
  | _ => []

/-- The module among trees. -/
def dottedText (trees : List ParseTree) : String := (trees.flatMap ParseTree.dottedNames).headD ""

/-- The dots or the module that a tree is. -/
def ParseTree.originText : ParseTree → String
  | .leaf ⟨.dots count, _⟩ => String.ofList (List.replicate count '.')
  | .node .dottedName children => ".".intercalate (Grammar.names children)
  | _ => ""

/-- The module of a selective import, with the dots before it, that a tree is. -/
def ParseTree.origins : ParseTree → List String
  | .node .moduleRef children => [String.join (children.map ParseTree.originText)]
  | _ => []

/-- The name that a tree imports, with its new name if it has one. -/
def ParseTree.picks : ParseTree → List String
  | .node .importName children =>
    match Grammar.names children with
    | [] => []
    | [name] => [name]
    | name :: new :: _ => [aliasText name new]
  | _ => []

/-- The import that a tree is. -/
def ParseTree.imports : ParseTree → List Import
  | .node .plainImport children =>
    match Grammar.names children with
    | [] => [⟨ImportReading.plainText (dottedText children)⟩]
    | new :: _ => [⟨ImportReading.plainText (aliasText (dottedText children) new)⟩]
  | .node .fromImport children =>
    [⟨ImportReading.pickText ((children.flatMap ParseTree.origins).headD "")
      (children.flatMap ParseTree.picks)⟩]
  | _ => []

/-- The imports among trees. -/
def importsOf (trees : List ParseTree) : List Import := trees.flatMap ParseTree.imports

/-! ## Methods and blocks -/

/-- The parameter that a tree is. -/
def ParseTree.params : ParseTree → List Param
  | .node .param children =>
    [⟨(Grammar.names children).headD "", (typesOf children).head?, nameSpan children⟩]
  | _ => []

/-- The result that a tree declares. -/
def ParseTree.results : ParseTree → List TypeExpr
  | .node .returnType children => typesOf children
  | _ => []

/-- The body that a token is. -/
def ParseTree.bodies : ParseTree → List Fenced
  | .leaf ⟨.body text, place⟩ => [⟨text, .ofPlace place⟩]
  | _ => []

/-- What is known before its body of the method whose children trees are. -/
def headOf (children : List ParseTree) : MethodHead where
  name := (names children).headD ""
  span := nameSpan children
  annotations := annotationsOf children
  params := children.flatMap ParseTree.params

/-- The method that a tree is. -/
def ParseTree.methods : ParseTree → List (MethodDef Fenced)
  | .node .rpc children =>
    [(headOf children).method (children.flatMap ParseTree.results).head?
      ((children.flatMap ParseTree.bodies).headD ⟨"", .none⟩)]
  | _ => []

/-- The classes that a tree lists as bases. -/
def ParseTree.bases : ParseTree → List TypeExpr
  | .node .bases children => typesOf children
  | _ => []

/-- The service block whose children trees are. -/
def implOf (children : List ParseTree) : ImplDef Fenced where
  name := (names children).headD ""
  bases := children.flatMap ParseTree.bases
  methods := children.flatMap ParseTree.methods
  annotations := annotationsOf children
  span := spanOf children

/-- The service block that a tree is. -/
def ParseTree.impls : ParseTree → List (ImplDef Fenced)
  | .node .implBlock children => [implOf children]
  | _ => []

/-- The service blocks among trees. -/
def implsOf (trees : List ParseTree) : List (ImplDef Fenced) := trees.flatMap ParseTree.impls

/-- The definition whose items trees are. -/
def definitionOf (trees : List ParseTree) : Definition Fenced := ⟨importsOf trees, implsOf trees⟩

/-! ## Trees side by side -/

@[simp] theorem names_append (trees others : List ParseTree) :
    names (trees ++ others) = names trees ++ names others := List.flatMap_append

@[simp] theorem typesOf_append (trees others : List ParseTree) :
    typesOf (trees ++ others) = typesOf trees ++ typesOf others := by
  induction trees with
  | nil => rfl
  | cons tree trees ih => rw [List.cons_append, typesOf, ih, typesOf, List.append_assoc]

@[simp] theorem argumentsOf_append (trees others : List ParseTree) :
    argumentsOf (trees ++ others) = argumentsOf trees ++ argumentsOf others := by
  induction trees with
  | nil => rfl
  | cons tree trees ih => rw [List.cons_append, argumentsOf, ih, argumentsOf, List.append_assoc]

@[simp] theorem annotationsOf_append (trees others : List ParseTree) :
    annotationsOf (trees ++ others) = annotationsOf trees ++ annotationsOf others :=
  List.flatMap_append

@[simp] theorem importsOf_append (trees others : List ParseTree) :
    importsOf (trees ++ others) = importsOf trees ++ importsOf others := List.flatMap_append

@[simp] theorem implsOf_append (trees others : List ParseTree) :
    implsOf (trees ++ others) = implsOf trees ++ implsOf others := List.flatMap_append

@[simp] theorem types_leaf (placed : Placed) : (ParseTree.leaf placed).types = [] := rfl

/-- Trees begin where the first of them does. -/
theorem spanOf_append {trees : List ParseTree} (h : yields trees ≠ []) (others : List ParseTree) :
    spanOf (trees ++ others) = spanOf trees := by
  obtain ⟨placed, rest, hyields⟩ := List.exists_cons_of_ne_nil h
  simp [spanOf, hyields]

end Interpose.Grammar
