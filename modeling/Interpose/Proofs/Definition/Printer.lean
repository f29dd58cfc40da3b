import Interpose.Definition.Body
import Interpose.Proofs.Definition.Names
import Interpose.Proofs.Source.Terminals
import Interpose.Wrapper.Text

/-!
# Printing definitions

`Definition.print` writes a definition as a definition file: an import, an annotation, the head of a
block or of a method, a body and a closing mark each begin a line. `Definition.WellFormed` says
which definitions can be written and read back: names are identifiers, paths are dotted names,
arguments and imports have the texts that reading gives them, bodies are clean, and names are
distinct where they have to be.
-/

namespace Interpose

open Source Text

/-! ## The printer -/

namespace Annotation

/-- An annotation without its sign. Without an argument list it has no parentheses. -/
def text (note : Annotation) : String :=
  match note.arguments with
  | none => note.name
  | some args => note.name ++ "(" ++ Argument.listText args ++ ")"

/-- An annotation as a line. -/
def line (note : Annotation) : String := "@" ++ note.text

@[simp] theorem toList_line (note : Annotation) : note.line.toList = '@' :: note.text.toList := by
  simp [line]

end Annotation

theorem text_of_bare {note : Annotation} (h : note.arguments = none) : note.text = note.name := by
  simp [h, Annotation.text]

/-- The name, the arguments and the text after an annotation stand one after the other. -/
theorem toList_text_append {note : Annotation} {args : List Argument}
    (h : note.arguments = some args) (rest : List Char) : note.text.toList ++ rest =
      note.name.toList ++ '(' :: ((Argument.listText args).toList ++ ')' :: rest) := by
  simp [h, Annotation.text]

namespace MethodDef

/-- The result of a method as it stands after the parameters. -/
def resultText (result : Option TypeExpr) : String :=
  match result with
  | none => ""
  | some type => " -> " ++ type.canonical

/-- The line that a method begins with. It opens the fence of the body. -/
def headLine (method : MethodDef String) : String :=
  "rpc " ++ method.name ++ "(" ++ ", ".intercalate (method.params.map Param.text) ++ ")" ++
    resultText method.result ++ " \x60\x60\x60"

/-- The lines of a method. The body stands between the fences. -/
def printed (method : MethodDef String) : List String :=
  method.annotations.map Annotation.line ++ [method.headLine, method.body, "\x60\x60\x60"]

end MethodDef

namespace ImplDef

/-- The bases of a block as they stand after its name. Without bases there are no parentheses. -/
def basesText (bases : List TypeExpr) : String :=
  if bases.isEmpty then "" else "(" ++ ", ".intercalate (bases.map (·.canonical)) ++ ")"

/-- The line that a block begins with. -/
def headLine (impl : ImplDef String) : String :=
  "impl " ++ impl.name ++ basesText impl.bases ++ " \x7b"

/-- The lines of a block. -/
def printed (impl : ImplDef String) : List String :=
  impl.annotations.map Annotation.line ++ [impl.headLine] ++
    impl.methods.flatMap MethodDef.printed ++ ["\x7d"]

end ImplDef

/-- A definition as a definition file. -/
def Definition.print (definition : Definition String) : String :=
  textOfLines (definition.imports.map (·.text) ++ definition.impls.flatMap ImplDef.printed)

/-! ## What can be printed -/

/-- A text that names joined by points make up. -/
def IsDotted (text : String) : Prop :=
  ∃ names : List String, names ≠ [] ∧ (∀ name ∈ names, isName name.toList) ∧
    text = ".".intercalate names

/-- A type whose path, and the paths of whose arguments, are dotted names. -/
inductive TypeExpr.WellNamed : TypeExpr → Prop
  | mk {name : String} {args : List TypeExpr} {span : Span} (hname : IsDotted name)
      (hargs : ∀ arg ∈ args, WellNamed arg) : WellNamed ⟨name, args, span⟩

/-- A text that an argument of some kind can have. -/
inductive IsValue : ArgumentKind → String → Prop
  /-- A dotted path. -/
  | path {text : String} (hpath : IsDotted text) : IsValue .path text
  /-- A quoted literal. -/
  | quoted {text : String} (htext : IsQuoted text.toList) : IsValue .literal text
  /-- A number. -/
  | number {text : String} (htext : IsNumber text.toList) : IsValue .literal text
  /-- A dotted path with arguments in parentheses, a comma and a space between them. -/
  | call {path : String} {args : List Argument} (hpath : IsDotted path)
      (hargs : ∀ arg ∈ args, IsValue arg.kind arg.value) :
      IsValue .call (path ++ "(" ++ Argument.listText args ++ ")")

/-- An annotation that can be written. -/
structure Annotation.WellFormed (note : Annotation) : Prop where
  /-- Its path is a dotted name. -/
  name : IsDotted note.name
  /-- Its arguments have the texts of their kinds. -/
  arguments : ∀ args ∈ note.arguments, ∀ arg ∈ args, IsValue arg.kind arg.value

/-- A name to import, as it is written: alone or with a new name. -/
inductive IsPick : String → Prop
  | plain {name : String} (hname : isName name.toList) : IsPick name
  | renamed {name new : String} (hname : isName name.toList) (hnew : isName new.toList) :
      IsPick (aliasText name new)

/-- The module of a selective import: a dotted name, with dots before it or not, or dots alone.
The name of a module right after dots is not the keyword that follows modules. -/
inductive IsOrigin : String → Prop
  | absolute {names : List String} (hne : names ≠ [])
      (hnames : ∀ name ∈ names, isName name.toList) :
      IsOrigin (ImportReading.sourceText 0 names)
  | relative {dots : Nat} {names : List String} (hdots : 0 < dots)
      (hnames : ∀ name ∈ names, isName name.toList)
      (hfirst : ∀ name ∈ names.head?, name.toList ≠ Keyword.importWord.spelling) :
      IsOrigin (ImportReading.sourceText dots names)

/-- The text of an import. -/
inductive IsImport : String → Prop
  /-- A module. -/
  | plain {module : String} (hmodule : IsDotted module) : IsImport (ImportReading.plainText module)
  /-- A module under a new name. -/
  | renamed {module new : String} (hmodule : IsDotted module) (hnew : isName new.toList) :
      IsImport (ImportReading.plainText (aliasText module new))
  /-- Names from a module. -/
  | picked {origin : String} {picks : List String} (horigin : IsOrigin origin) (hne : picks ≠ [])
      (hpicks : ∀ pick ∈ picks, IsPick pick) : IsImport (ImportReading.pickText origin picks)

/-- A body that cleaning leaves as it is, and that holds no fence. -/
structure IsClean (body : String) : Prop where
  /-- The lines that are kept of it are its lines. -/
  kept : joinLines (keptLines (splitLines body.toList)) = body.toList
  /-- It holds no fence. -/
  unfenced : ¬ fence <:+: body.toList

/-- A parameter that can be written. -/
structure Param.WellFormed (param : Param) : Prop where
  /-- Its name is an identifier. -/
  name : isName param.name.toList
  /-- Its type can be written. -/
  type : ∀ type ∈ param.type, type.WellNamed

section

variable {Body : Type} (IsBody : Body → Prop)

/-- A method that can be written, with a body of some kind. -/
structure MethodDef.WellFormed (method : MethodDef Body) : Prop where
  /-- Its name is an identifier. -/
  name : isName method.name.toList
  /-- Its parameters can be written. -/
  params : ∀ param ∈ method.params, param.WellFormed
  /-- Its result can be written. -/
  result : ∀ type ∈ method.result, type.WellNamed
  /-- Its body is of the kind. -/
  body : IsBody method.body
  /-- Its annotations can be written. -/
  annotations : ∀ note ∈ method.annotations, note.WellFormed

/-- A block that can be written, with bodies of some kind. -/
structure ImplDef.WellFormed (impl : ImplDef Body) : Prop where
  /-- Its name is an identifier. -/
  name : isName impl.name.toList
  /-- Its bases can be written. -/
  bases : ∀ base ∈ impl.bases, base.WellNamed
  /-- Its methods can be written. -/
  methods : ∀ method ∈ impl.methods, method.WellFormed IsBody
  /-- Its annotations can be written. -/
  annotations : ∀ note ∈ impl.annotations, note.WellFormed

end

/-- A definition that can be written and is accepted. -/
structure Definition.WellFormed (definition : Definition String) : Prop where
  /-- Its imports have texts of imports. -/
  imports : ∀ item ∈ definition.imports, IsImport item.text
  /-- Its blocks can be written, and their bodies are clean. -/
  impls : ∀ impl ∈ definition.impls, impl.WellFormed IsClean
  /-- Its names are distinct where they have to be, and none is reserved. -/
  names : NamesAccepted definition.impls

end Interpose
