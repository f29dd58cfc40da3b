import Interpose.Definition.Basic
import Interpose.Source.Scan

/-!
# Reading definitions

A definition file is read token by token. The state of the reading is what has been read so far:
the complete items, and the item that is open with all that it is nested in. `Reading.step` adds
one token, or refuses it when no definition file goes on with it, so a text is refused at the
first token that cannot follow. Types and calls nest to any depth; what they are nested in is
kept as a list, the innermost first.
-/

namespace Interpose

open Source (Token Place)

/-- A dotted path being read. -/
structure Path where
  /-- Where its first name stands. -/
  span : Span
  /-- Its names in order. -/
  names : List String
  deriving DecidableEq, Repr

namespace Path

/-- The path as text. -/
def text (path : Path) : String := ".".intercalate path.names

/-- The path with one more name. -/
def add (path : Path) (name : String) : Path := ⟨path.span, path.names ++ [name]⟩

/-- The path as a type without arguments. -/
def type (path : Path) : TypeExpr := ⟨path.text, [], path.span⟩

/-- The path as an annotation's argument. -/
def argument (path : Path) : Argument := ⟨.path, path.text, path.span⟩

end Path

/-! ## Types -/

/-- A type whose bracket is open. -/
structure OpenType where
  /-- The path before the bracket. -/
  path : Path
  /-- The complete arguments. -/
  args : List TypeExpr
  deriving DecidableEq, Repr

namespace OpenType

/-- The open type with one more argument. -/
def add (outer : OpenType) (arg : TypeExpr) : OpenType := ⟨outer.path, outer.args ++ [arg]⟩

/-- The type that closing the bracket after a last argument completes. -/
def close (outer : OpenType) (arg : TypeExpr) : TypeExpr :=
  ⟨outer.path.text, outer.args ++ [arg], outer.path.span⟩

end OpenType

/-- How far a type has been read. -/
inductive TypeReading where
  /-- A type begins here. -/
  | start (outer : List OpenType)
  /-- A path has been read. -/
  | path (outer : List OpenType) (path : Path)
  /-- A path and a dot have been read. -/
  | dot (outer : List OpenType) (path : Path)
  /-- A closing bracket has completed a type. -/
  | closed (outer : List OpenType) (type : TypeExpr)
  deriving DecidableEq, Repr

namespace TypeReading

/-- Read one more token of a type. -/
def step (token : Token) (place : Place) : TypeReading → Option TypeReading
  | .start outer =>
    match token with
    | .name name => some (.path outer ⟨.ofPlace place, [name]⟩)
    | _ => none
  | .path outer p =>
    match token, outer with
    | .mark .dot, _ => some (.dot outer p)
    | .mark .openBracket, _ => some (.start (⟨p, []⟩ :: outer))
    | .mark .comma, inner :: outer => some (.start (inner.add p.type :: outer))
    | .mark .closeBracket, inner :: outer => some (.closed outer (inner.close p.type))
    | _, _ => none
  | .dot outer p =>
    match token with
    | .name name => some (.path outer (p.add name))
    | _ => none
  | .closed outer type =>
    match token, outer with
    | .mark .comma, inner :: outer => some (.start (inner.add type :: outer))
    | .mark .closeBracket, inner :: outer => some (.closed outer (inner.close type))
    | _, _ => none

/-- The type that is complete, if one is. -/
def done? : TypeReading → Option TypeExpr
  | .path [] p => some p.type
  | .closed [] type => some type
  | _ => none

end TypeReading

/-! ## Annotations -/

/-- A call whose parenthesis is open. -/
structure OpenCall where
  /-- The path before the parenthesis. -/
  path : Path
  /-- The complete arguments of the list that the call stands in. -/
  before : List Argument
  deriving DecidableEq, Repr

/-- The text of a list of arguments. -/
def Argument.listText (args : List Argument) : String := ", ".intercalate (args.map (·.value))

/-- The list that a call stands in, once the call is closed after its arguments. -/
def OpenCall.close (call : OpenCall) (args : List Argument) : List Argument :=
  call.before ++
    [⟨.call, call.path.text ++ "(" ++ Argument.listText args ++ ")", call.path.span⟩]

/-- How far the arguments of an annotation have been read. -/
inductive ArgumentReading where
  /-- An argument begins here, or the list ends. -/
  | start (outer : List OpenCall) (args : List Argument)
  /-- A path has been read. -/
  | path (outer : List OpenCall) (args : List Argument) (path : Path)
  /-- A path and a dot have been read. -/
  | dot (outer : List OpenCall) (args : List Argument) (path : Path)
  /-- A literal or a call has been read. -/
  | value (outer : List OpenCall) (args : List Argument)
  /-- The annotation's own list is closed. -/
  | closed (args : List Argument)
  deriving DecidableEq, Repr

namespace ArgumentReading

/-- Close the innermost list. -/
def close (args : List Argument) : List OpenCall → ArgumentReading
  | [] => .closed args
  | call :: outer => .value outer (call.close args)

/-- Read one more token of an annotation's arguments. -/
def step (token : Token) (place : Place) : ArgumentReading → Option ArgumentReading
  | .start outer args =>
    match token with
    | .name name => some (.path outer args ⟨.ofPlace place, [name]⟩)
    | .quoted text => some (.value outer (args ++ [⟨.literal, text, .ofPlace place⟩]))
    | .number text => some (.value outer (args ++ [⟨.literal, text, .ofPlace place⟩]))
    | .mark .closeParen => some (close args outer)
    | _ => none
  | .path outer args p =>
    match token with
    | .mark .dot => some (.dot outer args p)
    | .mark .openParen => some (.start (⟨p, args⟩ :: outer) [])
    | .mark .comma => some (.start outer (args ++ [p.argument]))
    | .mark .closeParen => some (close (args ++ [p.argument]) outer)
    | _ => none
  | .dot outer args p =>
    match token with
    | .name name => some (.path outer args (p.add name))
    | _ => none
  | .value outer args =>
    match token with
    | .mark .comma => some (.start outer args)
    | .mark .closeParen => some (close args outer)
    | _ => none
  | .closed _ => none

end ArgumentReading

/-- How far an annotation has been read. -/
inductive AnnotationReading where
  /-- The sign has been read. -/
  | start (span : Span)
  /-- The sign and a path have been read. -/
  | path (span : Span) (path : Path)
  /-- The sign, a path and a dot have been read. -/
  | dot (span : Span) (path : Path)
  /-- The opening parenthesis after the path has been read. -/
  | arguments (span : Span) (path : Path) (reading : ArgumentReading)
  deriving DecidableEq, Repr

namespace AnnotationReading

/-- Read one more token of an annotation. -/
def step (token : Token) (place : Place) : AnnotationReading → Option AnnotationReading
  | .start span =>
    match token with
    | .name name => some (.path span ⟨.ofPlace place, [name]⟩)
    | _ => none
  | .path span p =>
    match token with
    | .mark .dot => some (.dot span p)
    | .mark .openParen => some (.arguments span p (.start [] []))
    | _ => none
  | .dot span p =>
    match token with
    | .name name => some (.path span (p.add name))
    | _ => none
  | .arguments span p reading => (reading.step token place).map (.arguments span p)

/-- The annotation that is complete, if one is. -/
def done? : AnnotationReading → Option Annotation
  | .path span p => some ⟨p.text, none, span⟩
  | .arguments span p (.closed args) => some ⟨p.text, some args, span⟩
  | _ => none

end AnnotationReading

/-! ## Imports -/

/-- A name and the name that it is imported under, as text. -/
def aliasText (name new : String) : String := name ++ " as " ++ new

/-- How far an import has been read. -/
inductive ImportReading where
  /-- The module of a plain import begins here. -/
  | plain
  /-- The module of a plain import has been read. -/
  | plainPath (names : List String)
  /-- The module of a plain import and a dot have been read. -/
  | plainDot (names : List String)
  /-- The new name of a plain import follows. -/
  | plainAs (names : List String)
  /-- A plain import with its new name has been read. -/
  | plainDone (names : List String) (new : String)
  /-- The module of a selective import begins here. -/
  | source
  /-- The dots before a module have been read. -/
  | sourceDots (count : Nat)
  /-- The module of a selective import has been read. -/
  | sourcePath (dots : Nat) (names : List String)
  /-- The module of a selective import and a dot have been read. -/
  | sourceDot (dots : Nat) (names : List String)
  /-- The next name to import follows. -/
  | pick (source : String) (picked : List String)
  /-- A name to import has been read. -/
  | picked (source : String) (before : List String) (name : String)
  /-- The new name of a name to import follows. -/
  | pickAs (source : String) (before : List String) (name : String)
  /-- A name to import with its new name has been read. -/
  | pickedAs (source : String) (picked : List String)
  deriving DecidableEq, Repr

namespace ImportReading

/-- A module with the dots before it, as text. -/
def sourceText (dots : Nat) (names : List String) : String :=
  String.ofList (List.replicate dots '.') ++ ".".intercalate names

/-- Read one more token of an import. -/
def step (token : Token) : ImportReading → Option ImportReading
  | .plain =>
    match token with
    | .name name => some (.plainPath [name])
    | _ => none
  | .plainPath names =>
    match token with
    | .mark .dot => some (.plainDot names)
    | .word .asWord => some (.plainAs names)
    | _ => none
  | .plainDot names =>
    match token with
    | .name name => some (.plainPath (names ++ [name]))
    | _ => none
  | .plainAs names =>
    match token with
    | .name name => some (.plainDone names name)
    | _ => none
  | .plainDone _ _ => none
  | .source =>
    match token with
    | .dots count => some (.sourceDots count)
    | .name name => some (.sourcePath 0 [name])
    | _ => none
  | .sourceDots count =>
    match token with
    | .name name => some (.sourcePath count [name])
    | .word .importWord => some (.pick (sourceText count []) [])
    | _ => none
  | .sourcePath dots names =>
    match token with
    | .mark .dot => some (.sourceDot dots names)
    | .word .importWord => some (.pick (sourceText dots names) [])
    | _ => none
  | .sourceDot dots names =>
    match token with
    | .name name => some (.sourcePath dots (names ++ [name]))
    | _ => none
  | .pick origin names =>
    match token with
    | .name name => some (.picked origin names name)
    | _ => none
  | .picked origin before name =>
    match token with
    | .word .asWord => some (.pickAs origin before name)
    | .mark .comma => some (.pick origin (before ++ [name]))
    | _ => none
  | .pickAs origin before name =>
    match token with
    | .name new => some (.pickedAs origin (before ++ [aliasText name new]))
    | _ => none
  | .pickedAs origin names =>
    match token with
    | .mark .comma => some (.pick origin names)
    | _ => none

/-- A plain import as text. -/
def plainText (module : String) : String := "import " ++ module

/-- A selective import as text. -/
def pickText (origin : String) (names : List String) : String :=
  "from " ++ origin ++ " import " ++ ", ".intercalate names

/-- The import that is complete, if one is. -/
def done? : ImportReading → Option Import
  | .plainPath names => some ⟨plainText (".".intercalate names)⟩
  | .plainDone names new => some ⟨plainText (aliasText (".".intercalate names) new)⟩
  | .picked origin before name => some ⟨pickText origin (before ++ [name])⟩
  | .pickedAs origin names => some ⟨pickText origin names⟩
  | _ => none

end ImportReading

/-! ## Blocks and files -/

/-- A body between its fences. -/
structure Fenced where
  /-- The text between the fences. -/
  text : String
  /-- Where the opening fence stands. -/
  span : Span
  deriving DecidableEq, Repr

/-- A service block whose methods are still being read. -/
abbrev OpenImpl := ImplDef Fenced

/-- What is known of a method before its body. -/
structure MethodHead where
  /-- Its name. -/
  name : String
  /-- Where its name stands. -/
  span : Span
  /-- The annotations before it. -/
  annotations : List Annotation
  /-- The complete parameters. -/
  params : List Param
  deriving DecidableEq, Repr

namespace MethodHead

/-- The head with one more parameter. -/
def add (head : MethodHead) (param : Param) : MethodHead :=
  { head with params := head.params ++ [param] }

/-- The method that a result and a body complete. -/
def method (head : MethodHead) (result : Option TypeExpr) (body : Fenced) : MethodDef Fenced :=
  ⟨head.name, head.params, result, body, head.annotations, head.span⟩

end MethodHead

/-- The item that is open. -/
inductive Focus where
  /-- Between items, after annotations for the next service block. -/
  | items (annotations : List Annotation)
  /-- Within an import. -/
  | importing (reading : ImportReading)
  /-- Within an annotation of the next service block. -/
  | annotating (before : List Annotation) (reading : AnnotationReading)
  /-- The name of a service block follows. -/
  | implName (annotations : List Annotation) (span : Span)
  /-- The bases or the methods of a service block follow. -/
  | implHead (impl : OpenImpl)
  /-- A base follows, or the list of bases ends. -/
  | bases (impl : OpenImpl)
  /-- Within a base. -/
  | base (impl : OpenImpl) (reading : TypeReading)
  /-- The methods of a service block follow. -/
  | basesDone (impl : OpenImpl)
  /-- Between methods, after annotations for the next one. -/
  | methods (impl : OpenImpl) (annotations : List Annotation)
  /-- Within an annotation of the next method. -/
  | methodAnnotating (impl : OpenImpl) (before : List Annotation) (reading : AnnotationReading)
  /-- The name of a method follows. -/
  | methodName (impl : OpenImpl) (annotations : List Annotation)
  /-- The parameters of a method follow. -/
  | methodHead (impl : OpenImpl) (head : MethodHead)
  /-- A parameter follows, or the list of parameters ends. -/
  | params (impl : OpenImpl) (head : MethodHead)
  /-- The name of a parameter has been read. -/
  | param (impl : OpenImpl) (head : MethodHead) (name : String) (span : Span)
  /-- Within the type of a parameter. -/
  | paramType (impl : OpenImpl) (head : MethodHead) (name : String) (span : Span)
      (reading : TypeReading)
  /-- The result or the body of a method follows. -/
  | paramsDone (impl : OpenImpl) (head : MethodHead)
  /-- Within the result of a method. -/
  | result (impl : OpenImpl) (head : MethodHead) (reading : TypeReading)
  deriving DecidableEq, Repr

/-- How far a definition file has been read. -/
structure Reading where
  /-- The complete imports. -/
  imports : List Import
  /-- The complete service blocks. -/
  impls : List (ImplDef Fenced)
  /-- The item that is open. -/
  focus : Focus
  deriving DecidableEq, Repr

namespace Reading

/-- Before the first token. -/
def start : Reading := ⟨[], [], .items []⟩

/-- The reading with another item open. -/
def go (reading : Reading) (focus : Focus) : Reading := { reading with focus }

/-- Read a token that begins an item. -/
def stepItems (reading : Reading) (annotations : List Annotation) (token : Token) (place : Place) :
    Option Reading :=
  match token, annotations with
  | .word .importWord, [] => some (reading.go (.importing .plain))
  | .word .fromWord, [] => some (reading.go (.importing .source))
  | .mark .at, _ => some (reading.go (.annotating annotations (.start (.ofPlace place))))
  | .word .implWord, [] => some (reading.go (.implName [] (.ofPlace place)))
  | .word .implWord, first :: _ => some (reading.go (.implName annotations first.span))
  | _, _ => none

/-- Read a token that begins a method or ends a service block. -/
def stepMethods (reading : Reading) (impl : OpenImpl) (annotations : List Annotation)
    (token : Token) (place : Place) : Option Reading :=
  match token, annotations with
  | .mark .at, _ =>
    some (reading.go (.methodAnnotating impl annotations (.start (.ofPlace place))))
  | .word .rpcWord, _ => some (reading.go (.methodName impl annotations))
  | .mark .closeBrace, [] => some ⟨reading.imports, reading.impls ++ [impl], .items []⟩
  | _, _ => none

/-- Read a token after a complete base. -/
def stepBases (reading : Reading) (impl : OpenImpl) (token : Token) : Option Reading :=
  match token with
  | .mark .comma => some (reading.go (.bases impl))
  | .mark .closeParen => some (reading.go (.basesDone impl))
  | _ => none

/-- Read a token after a complete parameter. -/
def stepParams (reading : Reading) (impl : OpenImpl) (head : MethodHead) (token : Token) :
    Option Reading :=
  match token with
  | .mark .comma => some (reading.go (.params impl head))
  | .mark .closeParen => some (reading.go (.paramsDone impl head))
  | _ => none

/-- Read a body, which completes a method. -/
def stepBody (reading : Reading) (impl : OpenImpl) (head : MethodHead) (result : Option TypeExpr)
    (token : Token) (place : Place) : Option Reading :=
  match token with
  | .body text =>
    let method := head.method result ⟨text, .ofPlace place⟩
    some (reading.go (.methods { impl with methods := impl.methods ++ [method] } []))
  | _ => none

/-- Read one more token. -/
def step (token : Token) (place : Place) (reading : Reading) : Option Reading :=
  match reading.focus with
  | .items annotations => reading.stepItems annotations token place
  | .importing inner =>
    match inner.step token, inner.done? with
    | some inner, _ => some (reading.go (.importing inner))
    | none, some done =>
      Reading.stepItems { reading with imports := reading.imports ++ [done] } [] token place
    | none, none => none
  | .annotating before inner =>
    match inner.step token place, inner.done? with
    | some inner, _ => some (reading.go (.annotating before inner))
    | none, some done => reading.stepItems (before ++ [done]) token place
    | none, none => none
  | .implName annotations span =>
    match token with
    | .name name => some (reading.go (.implHead ⟨name, [], [], annotations, span⟩))
    | _ => none
  | .implHead impl =>
    match token with
    | .mark .openParen => some (reading.go (.bases impl))
    | .mark .openBrace => some (reading.go (.methods impl []))
    | _ => none
  | .bases impl =>
    match token with
    | .mark .closeParen => some (reading.go (.basesDone impl))
    | _ => (TypeReading.step token place (.start [])).map fun inner => reading.go (.base impl inner)
  | .base impl inner =>
    match inner.step token place, inner.done? with
    | some inner, _ => some (reading.go (.base impl inner))
    | none, some done => reading.stepBases { impl with bases := impl.bases ++ [done] } token
    | none, none => none
  | .basesDone impl =>
    match token with
    | .mark .openBrace => some (reading.go (.methods impl []))
    | _ => none
  | .methods impl annotations => reading.stepMethods impl annotations token place
  | .methodAnnotating impl before inner =>
    match inner.step token place, inner.done? with
    | some inner, _ => some (reading.go (.methodAnnotating impl before inner))
    | none, some done => reading.stepMethods impl (before ++ [done]) token place
    | none, none => none
  | .methodName impl annotations =>
    match token with
    | .name name => some (reading.go (.methodHead impl ⟨name, .ofPlace place, annotations, []⟩))
    | _ => none
  | .methodHead impl head =>
    match token with
    | .mark .openParen => some (reading.go (.params impl head))
    | _ => none
  | .params impl head =>
    match token with
    | .name name => some (reading.go (.param impl head name (.ofPlace place)))
    | .mark .closeParen => some (reading.go (.paramsDone impl head))
    | _ => none
  | .param impl head name span =>
    match token with
    | .mark .colon => some (reading.go (.paramType impl head name span (.start [])))
    | _ => reading.stepParams impl (head.add ⟨name, none, span⟩) token
  | .paramType impl head name span inner =>
    match inner.step token place, inner.done? with
    | some inner, _ => some (reading.go (.paramType impl head name span inner))
    | none, some done => reading.stepParams impl (head.add ⟨name, some done, span⟩) token
    | none, none => none
  | .paramsDone impl head =>
    match token with
    | .mark .arrow => some (reading.go (.result impl head (.start [])))
    | _ => reading.stepBody impl head none token place
  | .result impl head inner =>
    match inner.step token place, inner.done? with
    | some inner, _ => some (reading.go (.result impl head inner))
    | none, some done => reading.stepBody impl head (some done) token place
    | none, none => none

/-- The definition that is complete, if one is. -/
def done? (reading : Reading) : Option (Definition Fenced) :=
  match reading.focus with
  | .items [] => some ⟨reading.imports, reading.impls⟩
  | .importing inner =>
    inner.done?.map fun done => ⟨reading.imports ++ [done], reading.impls⟩
  | _ => none

end Reading

end Interpose
