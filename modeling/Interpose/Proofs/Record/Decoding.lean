import Interpose.Proofs.Json.Reading
import Interpose.Proofs.Record.Normal
import Interpose.Record.Service

/-!
# Constructs are had back from their records

A construct's record is read as that construct, and so is the record's text unless two surrogates
stand as a pair in it. Without the places of some of its parts a record is read as the construct in
which exactly these parts stand nowhere, and members that are no fields change nothing. Each kind of
construct has its record in normal form; the rest is the same for all kinds.
-/

namespace Interpose

open Record Text

variable {τ : Type}

/-! ## Constructs with places taken away -/

/-- The place of a part, which is nowhere if the part is chosen. -/
def Spots.place (spots : Spots) (span : Span) : Span := if spots [] = true then Span.none else span

namespace TypeExpr

mutual

/-- A type in which the chosen types stand nowhere. -/
def forget (spots : Spots) : TypeExpr τ → TypeExpr τ
  | ⟨name, args, span⟩ =>
    ⟨name, forgetArgs (spots.under (.field "args")) 0 args, spots.place span⟩

/-- The arguments from an index on. -/
def forgetArgs (spots : Spots) (index : Nat) : List (TypeExpr τ) → List (TypeExpr τ)
  | [] => []
  | arg :: args => forget (spots.under (.item index)) arg :: forgetArgs spots (index + 1) args

end

end TypeExpr

/-- An argument that stands nowhere if it is chosen. -/
def Argument.forget (spots : Spots) (argument : Argument τ) : Argument τ :=
  { argument with span := spots.place argument.span }

/-- The items of a list, each with the chosen parts of its own standing nowhere. -/
def Spots.forgetItems {α : Type} (forget : Spots → α → α) (spots : Spots) (items : List α) :
    List α :=
  items.mapIdx fun index item => forget (spots.under (.item index)) item

/-- Items without places stay as they are. -/
@[simp] theorem Spots.forgetItems_id {α : Type} (spots : Spots) (items : List α) :
    Spots.forgetItems (fun _ item => item) spots items = items := by
  apply List.ext_getElem
  · simp [forgetItems]
  · simp [forgetItems]

/-- An annotation in which the chosen parts stand nowhere. -/
def Annotation.forget (spots : Spots) (note : Annotation τ) : Annotation τ :=
  { note with
    arguments := note.arguments.map
      (Spots.forgetItems Argument.forget (spots.under (.field "arguments")))
    span := spots.place note.span }

/-- A parameter in which the chosen parts stand nowhere. -/
def Param.forget (spots : Spots) (param : Param τ) : Param τ :=
  { param with
    type := param.type.map (TypeExpr.forget (spots.under (.field "type")))
    span := spots.place param.span }

/-- A written method in which the chosen parts stand nowhere. -/
def MethodDef.forget (spots : Spots) (method : MethodDef τ τ) : MethodDef τ τ :=
  { method with
    params := Spots.forgetItems Param.forget (spots.under (.field "params")) method.params
    result := method.result.map (TypeExpr.forget (spots.under (.field "return_type")))
    annotations :=
      Spots.forgetItems Annotation.forget (spots.under (.field "annotations")) method.annotations
    span := spots.place method.span }

/-- A service block in which the chosen parts stand nowhere. -/
def ImplDef.forget (spots : Spots) (impl : ImplDef τ τ) : ImplDef τ τ :=
  { impl with
    bases := Spots.forgetItems TypeExpr.forget (spots.under (.field "bases")) impl.bases
    methods := Spots.forgetItems MethodDef.forget (spots.under (.field "methods")) impl.methods
    annotations :=
      Spots.forgetItems Annotation.forget (spots.under (.field "annotations")) impl.annotations
    span := spots.place impl.span }

/-- A middleware that stands nowhere if it is chosen. -/
def MiddlewareRef.forget (spots : Spots) (ref : MiddlewareRef τ) : MiddlewareRef τ :=
  { ref with span := spots.place ref.span }

/-- A method of a service in which the chosen parts stand nowhere. -/
def Rpc.forget (spots : Spots) (rpc : Rpc τ) : Rpc τ :=
  { rpc with
    request := rpc.request.forget (spots.under (.field "request_type"))
    response := rpc.response.forget (spots.under (.field "response_type"))
    error := rpc.error.forget (spots.under (.field "error_type"))
    middlewares :=
      Spots.forgetItems MiddlewareRef.forget (spots.under (.field "local_middlewares"))
        rpc.middlewares
    params := Spots.forgetItems Param.forget (spots.under (.field "params")) rpc.params
    span := spots.place rpc.span }

/-- A service in which the chosen parts stand nowhere. -/
def Service.forget (spots : Spots) (service : Service τ) : Service τ :=
  { service with
    bases := Spots.forgetItems TypeExpr.forget (spots.under (.field "bases")) service.bases
    methods := Spots.forgetItems Rpc.forget (spots.under (.field "methods")) service.methods
    registry :=
      Spots.forgetItems MiddlewareRef.forget (spots.under (.field "registry")) service.registry }

/-! ## Places and types -/

/-- A span is read back from its record. -/
theorem Span.ofRecord?_toRecord (span : Span) : ofRecord? (span.toRecord : Json τ) = some span := by
  obtain ⟨line, column⟩ := span
  cases line <;> cases column <;> rfl

/-- The record of a span holds no place. -/
theorem Span.blank_toRecord (spots : Spots) (span : Span) :
    (span.toRecord : Json τ).blank spots = span.toRecord := by
  obtain ⟨line, column⟩ := span
  cases line <;> cases column <;>
    simp [toRecord, ofOption, Json.blank, Json.blankMembers]

/-- The place of a record is nowhere if the record is chosen. -/
theorem Spots.toRecord_place (spots : Spots) (span : Span) :
    (if spots [] = true then nowhere
      else (span.toRecord : Json τ).blank (spots.under (.field "span"))) =
      (spots.place span).toRecord := by
  rw [Spots.place, Span.blank_toRecord]
  split
  · exact Span.toRecord_none.symm
  · rfl

namespace TypeExpr

mutual

/-- A type is read back from its record. -/
theorem ofRecord?_toRecord : ∀ type : TypeExpr τ, ofRecord? type.toRecord = some type
  | ⟨name, args, span⟩ => by
    simp [toRecord, ofRecord?, ofRecords?_toRecords args, Span.ofRecord?_toRecord]

/-- Types are read back from their records. -/
theorem ofRecords?_toRecords : ∀ types : List (TypeExpr τ),
    ofRecords? (toRecords types) = some types
  | [] => rfl
  | type :: types => by
    simp [toRecords, ofRecords?, ofRecord?_toRecord type, ofRecords?_toRecords types]

end

mutual

/-- Blanking the spans of the record of a type forgets those of the type. -/
theorem blank_toRecord : ∀ (spots : Spots) (type : TypeExpr τ),
    type.toRecord.blank spots = (type.forget spots).toRecord
  | spots, ⟨name, args, span⟩ => by
    simp [toRecord, forget, Json.blank, Json.blankMembers, blankItems_toRecords,
      Spots.toRecord_place]

/-- Blanking the spans of the records of types forgets those of the types. -/
theorem blankItems_toRecords : ∀ (spots : Spots) (index : Nat) (types : List (TypeExpr τ)),
    Json.blankItems spots index (toRecords types) = toRecords (forgetArgs spots index types)
  | _, _, [] => rfl
  | spots, index, type :: types => by
    rw [toRecords, Json.blankItems, forgetArgs, toRecords, blank_toRecord _ type,
      blankItems_toRecords spots (index + 1) types]

end

end TypeExpr

/-! ## Records of one type -/

section

variable [Spelled τ]

/-- What relates the constructs of a type to their records. -/
structure Recorded {α : Type} (shape : Shape) (write : α → Json τ) (read : Json τ → Option α)
    (forget : Spots → α → α) : Prop where
  /-- A record is in normal form. -/
  normal : ∀ a, Normal (write a) shape
  /-- A construct is had back from its record. -/
  read_write : ∀ a, read (write a) = some a
  /-- A record with some of its places nowhere is that of the construct with these places
  forgotten. -/
  blank_write : ∀ spots a, (write a).blank spots = write (forget spots a)

namespace Recorded

variable {α : Type} {shape : Shape} {write : α → Json τ} {read : Json τ → Option α}
  {forget : Spots → α → α}

/-- The items of a list are recorded as they are. -/
theorem list (h : Recorded shape write read forget) :
    Recorded (.list shape) (ofList write) (list? read) (Spots.forgetItems forget) where
  normal as := by
    apply Normal.list
    intro value hmem
    obtain ⟨a, -, rfl⟩ := List.mem_map.mp hmem
    exact h.normal a
  read_write as := by
    rw [ofList, list?]
    induction as with
    | nil => rfl
    | cons a as ih => rw [List.map_cons, List.mapM_cons, h.read_write a, ih]; rfl
  blank_write spots as := by
    have hitems (index : Nat) : Json.blankItems spots index (as.map write) =
        (as.mapIdx fun i a => forget (spots.under (.item (index + i))) a).map write := by
      induction as generalizing index with
      | nil => rfl
      | cons a as ih =>
        rw [List.map_cons, Json.blankItems, h.blank_write, ih, List.mapIdx_cons, List.map_cons]
        simp [Nat.add_assoc, Nat.add_comm 1]
    rw [ofList, Json.blank, hitems, ofList, Spots.forgetItems]
    simp

/-- A construct that may be missing is had back. -/
theorem option?_ofOption (h : Recorded shape write read forget) (a : Option α) :
    option? read (ofOption write a) = some a := by
  cases a with
  | none => rfl
  | some a =>
    have hne := (h.normal a).ne_null
    rw [ofOption]
    rw [option?]
    · rw [h.read_write]
      rfl
    · exact hne

/-- A construct that may be missing is recorded as null or as it is. -/
theorem blank_ofOption (h : Recorded shape write read forget) (spots : Spots) (a : Option α) :
    (ofOption write a).blank spots = ofOption write (a.map (forget spots)) := by
  cases a with
  | none => simp [ofOption, Json.blank]
  | some a => exact h.blank_write spots a

/-- A field that may be null stands before the other fields. -/
theorem optional (h : Recorded shape write read forget) (a : Option α) {name : String}
    {isPlace : Bool} {members : List (String × Json τ)} {fields : List Field}
    (rest : NormalMembers members fields) :
    NormalMembers ((name, ofOption write a) :: members) (⟨name, shape, isPlace⟩ :: fields) := by
  cases a with
  | none => exact .null ⟨name, shape, isPlace⟩ rest
  | some a => exact @NormalMembers.value _ _ _ _ ⟨name, shape, isPlace⟩ _ (h.normal a) rest

end Recorded

/-- An integer is recorded as it is. -/
theorem recorded_number :
    Recorded .number (.int : Int → Json τ) number? fun _ i => i where
  normal := Normal.number
  read_write _ := rfl
  blank_write _ _ := by simp [Json.blank]

/-- A span and its record. -/
theorem Span.recorded :
    Recorded (.record .span) (toRecord : Span → Json τ) ofRecord? fun _ span => span where
  normal span :=
    .record (recorded_number.optional span.line (recorded_number.optional span.column .nil))
  read_write := Span.ofRecord?_toRecord
  blank_write := Span.blank_toRecord

/-- The place of a record stands before no other field. -/
theorem Span.normal_place (span : Span) :
    NormalMembers [("span", (span.toRecord : Json τ))] [.place] :=
  @NormalMembers.value _ _ _ _ .place _ (Span.recorded.normal span) .nil

/-- A field that holds what it should stands before the other fields. -/
theorem NormalMembers.holds {value : Json τ} {shape : Shape} {name : String} {isPlace : Bool}
    {members : List (String × Json τ)} {fields : List Field} (first : Normal value shape)
    (rest : NormalMembers members fields) :
    NormalMembers ((name, value) :: members) (⟨name, shape, isPlace⟩ :: fields) :=
  @NormalMembers.value _ _ value members ⟨name, shape, isPlace⟩ fields first rest

namespace TypeExpr

mutual

/-- The record of a type has the form of the records of types. -/
theorem normal_toRecord : ∀ type : TypeExpr τ, Normal type.toRecord (.record .type)
  | ⟨name, args, span⟩ => by
    rw [toRecord]
    exact .record (.holds (.text name) (.holds (.list (normal_toRecords args)) span.normal_place))

/-- The records of types have that form. -/
theorem normal_toRecords : ∀ types : List (TypeExpr τ),
    ∀ value ∈ toRecords types, Normal value (.record .type)
  | [], value, h => by cases h
  | type :: types, value, h => by
    rw [toRecords] at h
    obtain rfl | hmem := List.mem_cons.mp h
    · exact normal_toRecord type
    · exact normal_toRecords types value hmem

end

/-- A type and its record. -/
theorem recorded : Recorded (.record .type) (toRecord : TypeExpr τ → Json τ) ofRecord? forget :=
  ⟨normal_toRecord, ofRecord?_toRecord, blank_toRecord⟩

end TypeExpr

/-! ## The other constructs -/

/-- An import and its record. -/
theorem Import.recorded :
    Recorded (.record .line) (toRecord : Import τ → Json τ) ofRecord? fun _ line => line where
  normal line := .record (.holds (.text _) .nil)
  read_write line := by simp [toRecord, ofRecord?]
  blank_write spots line := by simp [toRecord, Json.blank, Json.blankMembers]

/-- A parameter and its record. -/
theorem Param.recorded :
    Recorded (.record .param) (toRecord : Param τ → Json τ) ofRecord? forget where
  normal param := .record (.holds (.text _)
    (TypeExpr.recorded.optional _ param.span.normal_place))
  read_write param := by
    simp [toRecord, ofRecord?, TypeExpr.recorded.option?_ofOption, Span.recorded.read_write]
  blank_write spots param := by
    simp [toRecord, forget, Json.blank, Json.blankMembers, Spots.toRecord_place,
      TypeExpr.recorded.blank_ofOption]

/-- A reference to a middleware and its record. -/
theorem MiddlewareRef.recorded :
    Recorded (.record .middleware) (toRecord : MiddlewareRef τ → Json τ) ofRecord? forget where
  normal ref := .record (.holds (.text _) ref.span.normal_place)
  read_write ref := by simp [toRecord, ofRecord?, Span.recorded.read_write]
  blank_write spots ref := by
    simp [toRecord, forget, Json.blank, Json.blankMembers, Spots.toRecord_place]

/-- A method of a service and its record. -/
theorem Rpc.recorded :
    Recorded (.record .rpc) (toRecord : Rpc τ → Json τ) ofRecord? forget where
  normal rpc := .record (.holds (.text _) (.holds (TypeExpr.recorded.normal _)
    (.holds (TypeExpr.recorded.normal _) (.holds (TypeExpr.recorded.normal _)
      (.holds (MiddlewareRef.recorded.list.normal _) (.holds (recorded_number.list.normal _)
        (.holds (Param.recorded.list.normal _) (.holds (.text _) rpc.span.normal_place))))))))
  read_write rpc := by
    simp [toRecord, ofRecord?, TypeExpr.recorded.read_write, MiddlewareRef.recorded.list.read_write,
      recorded_number.list.read_write, Param.recorded.list.read_write, Span.recorded.read_write]
  blank_write spots rpc := by
    simp [toRecord, forget, Json.blank, Json.blankMembers, Spots.toRecord_place,
      TypeExpr.recorded.blank_write, MiddlewareRef.recorded.list.blank_write,
      recorded_number.list.blank_write, Param.recorded.list.blank_write]

/-- An endpoint and its record. -/
theorem Endpoint.recorded :
    Recorded (.record .endpoint) (toRecord : Endpoint τ → Json τ) ofRecord?
      fun _ endpoint => endpoint where
  normal endpoint := .record (.holds (.text _) (.holds (.text _) .nil))
  read_write endpoint := by simp [toRecord, ofRecord?]
  blank_write spots endpoint := by simp [toRecord, Json.blank, Json.blankMembers]

/-- A service and its record. -/
theorem Service.recorded :
    Recorded (.record .service) (toRecord : Service τ → Json τ) ofRecord? forget where
  normal service := .record (.holds (.text _) (.holds (TypeExpr.recorded.list.normal _)
    (.holds (Rpc.recorded.list.normal _) (.holds (MiddlewareRef.recorded.list.normal _)
      (.holds (Endpoint.recorded.normal _) .nil)))))
  read_write service := by
    simp [toRecord, ofRecord?, TypeExpr.recorded.list.read_write, Rpc.recorded.list.read_write,
      MiddlewareRef.recorded.list.read_write, Endpoint.recorded.read_write]
  blank_write spots service := by
    simp [toRecord, forget, Json.blank, Json.blankMembers, TypeExpr.recorded.list.blank_write,
      Rpc.recorded.list.blank_write, MiddlewareRef.recorded.list.blank_write,
      Endpoint.recorded.blank_write]

variable [LawfulSpelled τ] [DecidableEq τ]

/-- A shape is told by its name. -/
theorem ArgumentKind.ofName_name (kind : ArgumentKind) :
    ofName (.str (Spelled.ofString kind.name) : Json τ) = .ok kind := by
  cases kind <;> simp [ofName, name, Text.ofString_inj]

/-- An argument of an annotation and its record. -/
theorem Argument.recorded :
    Recorded (.record .argument) (toRecord : Argument τ → Json τ) ofRecord? forget where
  normal argument := by
    have hkind : argument.kind.name ∈ argumentKindNames := by cases argument.kind <;> decide
    exact .record (.holds (.argumentKind hkind)
      (.holds (.text _) argument.span.normal_place))
  read_write argument := by
    simp [toRecord, ofRecord?, ArgumentKind.ofName_name, Except.toOption, Span.recorded.read_write]
  blank_write spots argument := by
    simp [toRecord, forget, Json.blank, Json.blankMembers, Spots.toRecord_place]

/-- An annotation and its record. -/
theorem Annotation.recorded :
    Recorded (.record .note) (toRecord : Annotation τ → Json τ) ofRecord? forget where
  normal note := .record (.holds (.text _)
    (Argument.recorded.list.optional _ note.span.normal_place))
  read_write note := by
    simp [toRecord, ofRecord?, Argument.recorded.list.option?_ofOption, Span.recorded.read_write]
  blank_write spots note := by
    simp [toRecord, forget, Json.blank, Json.blankMembers, Spots.toRecord_place,
      Argument.recorded.list.blank_ofOption]

/-- Annotations and their records. -/
theorem recorded_notes :
    Recorded (.list (.record .note)) (ofList fun note : Annotation τ => note.toRecord)
      (list? Annotation.ofRecord?) (Spots.forgetItems Annotation.forget) :=
  Annotation.recorded.list

/-- A method of a definition and its record. -/
theorem MethodDef.recorded :
    Recorded (.record .method) (toRecord : MethodDef τ τ → Json τ) ofRecord? forget where
  normal method := .record (.holds (.text _) (.holds (Param.recorded.list.normal _)
    (TypeExpr.recorded.optional _ (.holds (.text _) (.holds (recorded_notes.normal _)
      method.span.normal_place)))))
  read_write method := by
    simp [toRecord, ofRecord?, Param.recorded.list.read_write, TypeExpr.recorded.option?_ofOption,
      recorded_notes.read_write, Span.recorded.read_write]
  blank_write spots method := by
    simp [toRecord, forget, Json.blank, Json.blankMembers, Spots.toRecord_place,
      Param.recorded.list.blank_write, TypeExpr.recorded.blank_ofOption,
      recorded_notes.blank_write]

/-- A service block and its record. -/
theorem ImplDef.recorded :
    Recorded (.record .impl) (toRecord : ImplDef τ τ → Json τ) ofRecord? forget where
  normal impl := .record (.holds (.text _) (.holds (TypeExpr.recorded.list.normal _)
    (.holds (MethodDef.recorded.list.normal _) (.holds (recorded_notes.normal _)
      impl.span.normal_place))))
  read_write impl := by
    simp [toRecord, ofRecord?, TypeExpr.recorded.list.read_write,
      MethodDef.recorded.list.read_write, recorded_notes.read_write,
      Span.recorded.read_write]
  blank_write spots impl := by
    simp [toRecord, forget, Json.blank, Json.blankMembers, Spots.toRecord_place,
      TypeExpr.recorded.list.blank_write, MethodDef.recorded.list.blank_write,
      recorded_notes.blank_write]

end

/-! ## All constructs -/

/-- An element of one of the kinds of records. -/
inductive Element (τ : Type) where
  /-- A place. -/
  | span (span : Span)
  /-- A type. -/
  | type (type : TypeExpr τ)
  /-- An argument of an annotation. -/
  | argument (argument : Argument τ)
  /-- An annotation. -/
  | note (note : Annotation τ)
  /-- An import. -/
  | line (line : Import τ)
  /-- A parameter. -/
  | param (param : Param τ)
  /-- A method as it is written. -/
  | method (method : MethodDef τ τ)
  /-- A service block. -/
  | impl (impl : ImplDef τ τ)
  /-- A middleware. -/
  | middleware (ref : MiddlewareRef τ)
  /-- A method of a service. -/
  | rpc (rpc : Rpc τ)
  /-- The names around a service. -/
  | endpoint (endpoint : Endpoint τ)
  /-- A service. -/
  | service (service : Service τ)
  deriving DecidableEq, Repr

namespace Element

/-- The kind of a construct's record. -/
def kind : Element τ → RecordKind
  | .span _ => .span
  | .type _ => .type
  | .argument _ => .argument
  | .note _ => .note
  | .line _ => .line
  | .param _ => .param
  | .method _ => .method
  | .impl _ => .impl
  | .middleware _ => .middleware
  | .rpc _ => .rpc
  | .endpoint _ => .endpoint
  | .service _ => .service

/-- The record of an element. -/
def toRecord [Spelled τ] : Element τ → Json τ
  | .span a => a.toRecord
  | .type a => a.toRecord
  | .argument a => a.toRecord
  | .note a => a.toRecord
  | .line a => a.toRecord
  | .param a => a.toRecord
  | .method a => a.toRecord
  | .impl a => a.toRecord
  | .middleware a => a.toRecord
  | .rpc a => a.toRecord
  | .endpoint a => a.toRecord
  | .service a => a.toRecord

/-- The element of a record of a kind. -/
def ofRecord? [Spelled τ] [DecidableEq τ] (record : Json τ) : RecordKind → Option (Element τ)
  | .span => (Span.ofRecord? record).map .span
  | .type => (TypeExpr.ofRecord? record).map .type
  | .argument => (Argument.ofRecord? record).map .argument
  | .note => Annotation.ofRecord? record |>.map .note
  | .line => (Import.ofRecord? record).map .line
  | .param => (Param.ofRecord? record).map .param
  | .method => (MethodDef.ofRecord? record).map .method
  | .impl => (ImplDef.ofRecord? record).map .impl
  | .middleware => (MiddlewareRef.ofRecord? record).map .middleware
  | .rpc => (Rpc.ofRecord? record).map .rpc
  | .endpoint => (Endpoint.ofRecord? record).map .endpoint
  | .service => (Service.ofRecord? record).map .service

/-- An element in which the chosen parts stand nowhere. -/
def forget (spots : Spots) : Element τ → Element τ
  | .span a => .span a
  | .type a => .type (a.forget spots)
  | .argument a => .argument (a.forget spots)
  | .note a => .note (a.forget spots)
  | .line a => .line a
  | .param a => .param (a.forget spots)
  | .method a => .method (a.forget spots)
  | .impl a => .impl (a.forget spots)
  | .middleware a => .middleware (a.forget spots)
  | .rpc a => .rpc (a.forget spots)
  | .endpoint a => .endpoint a
  | .service a => .service (a.forget spots)

/-- Forgetting spans leaves the kind of an element. -/
theorem kind_forget (spots : Spots) (element : Element τ) :
    (element.forget spots).kind = element.kind := by
  cases element <;> rfl

variable [Spelled τ] [LawfulSpelled τ] [DecidableEq τ]

/-- The record of an element has the form of its kind. -/
theorem normal_toRecord (element : Element τ) :
    Normal element.toRecord (.record element.kind) := by
  cases element with
  | span a => exact Span.recorded.normal a
  | type a => exact TypeExpr.recorded.normal a
  | argument a => exact Argument.recorded.normal a
  | note a => exact Annotation.recorded.normal a
  | line a => exact Import.recorded.normal a
  | param a => exact Param.recorded.normal a
  | method a => exact MethodDef.recorded.normal a
  | impl a => exact ImplDef.recorded.normal a
  | middleware a => exact MiddlewareRef.recorded.normal a
  | rpc a => exact Rpc.recorded.normal a
  | endpoint a => exact Endpoint.recorded.normal a
  | service a => exact Service.recorded.normal a

/-- An element is read back from its record. -/
theorem ofRecord?_toRecord (element : Element τ) :
    ofRecord? element.toRecord element.kind = some element := by
  cases element <;>
    simp [toRecord, ofRecord?, kind, Span.recorded.read_write, TypeExpr.recorded.read_write,
      Argument.recorded.read_write, Annotation.recorded.read_write, Import.recorded.read_write,
      Param.recorded.read_write, MethodDef.recorded.read_write, ImplDef.recorded.read_write,
      MiddlewareRef.recorded.read_write, Rpc.recorded.read_write, Endpoint.recorded.read_write,
      Service.recorded.read_write]

/-- Blanking the spans of the record of an element forgets those of the element. -/
theorem blank_toRecord (spots : Spots) (element : Element τ) :
    element.toRecord.blank spots = (element.forget spots).toRecord := by
  cases element with
  | span a => exact Span.recorded.blank_write spots a
  | type a => exact TypeExpr.recorded.blank_write spots a
  | argument a => exact Argument.recorded.blank_write spots a
  | note a => exact Annotation.recorded.blank_write spots a
  | line a => exact Import.recorded.blank_write spots a
  | param a => exact Param.recorded.blank_write spots a
  | method a => exact MethodDef.recorded.blank_write spots a
  | impl a => exact ImplDef.recorded.blank_write spots a
  | middleware a => exact MiddlewareRef.recorded.blank_write spots a
  | rpc a => exact Rpc.recorded.blank_write spots a
  | endpoint a => exact Endpoint.recorded.blank_write spots a
  | service a => exact Service.recorded.blank_write spots a

end Element

/-- Read a value as an element of a kind. -/
def RecordKind.decode [Spelled τ] [DecidableEq τ] (kind : RecordKind) (value : Json τ) :
    Except (RecordFault τ) (Option (Element τ)) :=
  (kind.normal value).map fun record => Element.ofRecord? record kind

namespace Element

variable [Spelled τ] [LawfulSpelled τ] [DecidableEq τ]

/-- Without the places of the chosen parts, and with any members that are no fields, a record is
read as the element in which these parts stand nowhere. -/
theorem decode_of_adds (element : Element τ) (spots : Spots) {value : Json τ}
    (h : Relation.ReflTransGen (AddsMember (.record element.kind))
      (element.toRecord.thin spots) value) :
    element.kind.decode value = .ok (some (element.forget spots)) := by
  have hread := ofRecord?_toRecord (element.forget spots)
  rw [kind_forget] at hread
  rw [RecordKind.decode, RecordKind.normal, ofJson_eq_of_adds h,
    element.normal_toRecord.ofJson_thin, blank_toRecord]
  exact congrArg Except.ok hread

/-- A record is read as its element. -/
theorem decode_record (element : Element τ) :
    element.kind.decode element.toRecord = .ok (some element) := by
  have hnormal := element.normal_toRecord.ofJson_thin fun _ => false
  rw [Json.thin_none, Json.blank_none] at hnormal
  rw [RecordKind.decode, RecordKind.normal, hnormal]
  exact congrArg Except.ok (ofRecord?_toRecord element)

/-- An element is had back from its record, and from its record's text unless a pair of surrogates
stands in one of its own texts. Where the places of some of its parts are taken away, it is had back
with exactly these parts standing nowhere, and members that are no fields change nothing at any
depth. -/
theorem decode_toRecord (element : Element τ) :
    element.kind.decode element.toRecord = .ok (some element) ∧
    (element.toRecord.Unpaired → ∀ style, ∃ value,
      Json.parse? (element.toRecord.render style) = some value ∧
        element.kind.decode value = .ok (some element)) ∧
    ∀ (spots : Spots) (value : Json τ),
      Relation.ReflTransGen (AddsMember (.record element.kind))
        (element.toRecord.thin spots) value →
      element.kind.decode value = .ok (some (element.forget spots)) := by
  refine ⟨decode_record element, ?_, ?_⟩
  · intro hunpaired style
    exact ⟨element.toRecord, Json.parse?_render_of_unpaired style hunpaired, decode_record element⟩
  · intro spots value h
    exact decode_of_adds element spots h

/-- A parameter that is a list of items of a module. Its name ends in a surrogate. -/
def listed : Element (List CodePoint) :=
  .param ⟨points "items" ++ [.surrogate 0x3D],
    some ⟨points "list", [⟨points "pkg.Item", [], ⟨some 2, some 19⟩⟩], ⟨some 2, some 14⟩⟩,
    ⟨some 2, some 7⟩⟩

/-- Its record without the place of the type of its items, to which another member is added. -/
def listedGiven : Json (List CodePoint) :=
  .obj [("name", .str (points "items" ++ [.surrogate 0x3D])),
    ("type", .obj [("name", .str (points "list")),
      ("args", .arr [.obj [("name", .str (points "pkg.Item")), ("args", .arr []),
        ("kind", .int 1)]]),
      ("span", .obj [("line", .int 2), ("column", .int 14)])]),
    ("span", .obj [("line", .int 2), ("column", .int 7)])]

/-- The parameter is had back from its record's text. When the type of the items stands nowhere and
has a member that no type has, it comes back without its place. -/
theorem decode_toRecord_listed :
    listed.toRecord.Unpaired ∧
    (∃ value, Json.parse? (listed.toRecord.render .line) = some value ∧
      RecordKind.decode .param value = .ok (some listed)) ∧
    Relation.ReflTransGen (AddsMember (.record .param))
      (listed.toRecord.thin fun steps => steps = [.field "type", .field "args", .item 0])
      listedGiven ∧
    RecordKind.decode .param listedGiven =
      .ok (some (.param ⟨points "items" ++ [.surrogate 0x3D],
        some ⟨points "list", [⟨points "pkg.Item", [], Span.none⟩], ⟨some 2, some 14⟩⟩,
        ⟨some 2, some 7⟩⟩)) := by
  have hunpaired : listed.toRecord.Unpaired := by decide +kernel
  have hthin : listed.toRecord.thin (fun steps => steps = [.field "type", .field "args", .item 0]) =
      .obj [("name", .str (points "items" ++ [.surrogate 0x3D])),
        ("type", .obj [("name", .str (points "list")),
          ("args", .arr [.obj [("name", .str (points "pkg.Item")), ("args", .arr [])]]),
          ("span", .obj [("line", .int 2), ("column", .int 14)])]),
        ("span", .obj [("line", .int 2), ("column", .int 7)])] := by
    decide +kernel
  have hitem := @AddsMember.here (List CodePoint) .type "kind" (by decide +kernel)
    [("name", .str (points "pkg.Item")), ("args", .arr [])] [] (.int 1)
  have htype := @AddsMember.field (List CodePoint) .type ⟨"args", .list (.record .type), false⟩
    (by decide +kernel) _ _ (.item hitem [] []) [("name", .str (points "list"))]
    [("span", .obj [("line", .int 2), ("column", .int 14)])]
  have hadds := @AddsMember.field (List CodePoint) .param ⟨"type", .record .type, false⟩
    (by decide +kernel) _ _ htype [("name", .str (points "items" ++ [.surrogate 0x3D]))]
    [("span", .obj [("line", .int 2), ("column", .int 7)])]
  have hsteps : Relation.ReflTransGen (AddsMember (.record .param))
      (listed.toRecord.thin fun steps => steps = [.field "type", .field "args", .item 0])
      listedGiven :=
    hthin.symm ▸ Relation.ReflTransGen.single hadds
  refine ⟨hunpaired, (decode_toRecord listed).2.1 hunpaired .line, hsteps,
    ((decode_toRecord listed).2.2 _ _ hsteps).trans ?_⟩
  decide +kernel

/-- An import whose text consists of two surrogates, a high one and a low one. -/
def splitImport : Element (List CodePoint) := .line ⟨[.surrogate 0x3D, .surrogate 0x600]⟩

/-- Not every element is had back from its record's text: two surrogates that stand as a pair are
read as one character. -/
theorem not_decode_toRecord :
    splitImport.toRecord.render .line = "\x7b\"text\": \"\\ud83d\\ude00\"\x7d" ∧
    splitImport.kind.decode splitImport.toRecord = .ok (some splitImport) ∧
    ∃ value : Json (List CodePoint),
      Json.parse? (splitImport.toRecord.render .line) = some value ∧
      splitImport.kind.decode value = .ok (some (.line ⟨[.char '😀']⟩)) ∧
      splitImport ≠ .line ⟨[.char '😀']⟩ := by
  have htext : splitImport.toRecord.render .line =
      "\x7b\"text\": \"\\ud83d\\ude00\"\x7d" := by decide +kernel
  have hread : Json.parse? (splitImport.toRecord.render .line) =
      some (.obj [("text", .str [CodePoint.char '😀'])]) := by
    rw [htext]
    decide +kernel
  exact ⟨htext, by decide +kernel, _, hread, by decide +kernel, by decide⟩

end Element

end Interpose
