import Interpose.Record.Basic

/-!
# Shapes of records

Each kind of record has its fields in a fixed order, and each field has a shape. `normal` brings
a value to the normal form of a kind of record: exactly its fields, in their order. Reading is
lenient where no meaning is lost. A text is taken from any value and a number from a numeral, the
names of an object or the code points of a text are taken as the items of a list, a field may be
null, and members that are no fields are dropped. The first field that is missing or does not
hold what it should is reported.
-/

namespace Interpose

open Text (Spelled)

/-- The kinds of records, one for each kind of construct. -/
inductive RecordKind where
  /-- A place in a definition. -/
  | span
  /-- A type. -/
  | type
  /-- An argument of an annotation. -/
  | argument
  /-- An annotation. -/
  | note
  /-- An import. -/
  | line
  /-- A parameter. -/
  | param
  /-- A method as it is written. -/
  | method
  /-- A service block. -/
  | impl
  /-- A middleware. -/
  | middleware
  /-- A method of a service. -/
  | rpc
  /-- The names around a service. -/
  | endpoint
  /-- A service. -/
  | service
  deriving DecidableEq, Repr

/-- What a field holds. -/
inductive Shape where
  /-- A text. -/
  | text
  /-- A number. -/
  | number
  /-- The shape of an annotation's argument. -/
  | argumentKind
  /-- A record. -/
  | record (kind : RecordKind)
  /-- A list whose items have one shape. -/
  | list (item : Shape)
  deriving DecidableEq, Repr

/-- A field of a record. -/
structure Field where
  /-- The name of the field. -/
  name : String
  /-- What the field holds. -/
  shape : Shape
  /-- Whether the field holds a place, which is nowhere when it is missing. No other field may be
  missing. -/
  isPlace : Bool := false
  deriving DecidableEq, Repr

/-- The place of a construct. -/
def Field.place : Field := ⟨"span", .record .span, true⟩

/-- The fields of a kind of record. -/
def RecordKind.fields : RecordKind → List Field
  | .span => [⟨"line", .number, false⟩, ⟨"column", .number, false⟩]
  | .type => [⟨"name", .text, false⟩, ⟨"args", .list (.record .type), false⟩, .place]
  | .argument => [⟨"kind", .argumentKind, false⟩, ⟨"value", .text, false⟩, .place]
  | .note => [⟨"name", .text, false⟩, ⟨"arguments", .list (.record .argument), false⟩, .place]
  | .line => [⟨"text", .text, false⟩]
  | .param => [⟨"name", .text, false⟩, ⟨"type", .record .type, false⟩, .place]
  | .method =>
    [⟨"name", .text, false⟩, ⟨"params", .list (.record .param), false⟩,
     ⟨"return_type", .record .type, false⟩, ⟨"body", .text, false⟩,
     ⟨"annotations", .list (.record .note), false⟩, .place]
  | .impl =>
    [⟨"name", .text, false⟩, ⟨"bases", .list (.record .type), false⟩,
     ⟨"methods", .list (.record .method), false⟩, ⟨"annotations", .list (.record .note), false⟩,
     .place]
  | .middleware => [⟨"path", .text, false⟩, .place]
  | .rpc =>
    [⟨"name", .text, false⟩, ⟨"request_type", .record .type, false⟩,
     ⟨"response_type", .record .type, false⟩, ⟨"error_type", .record .type, false⟩,
     ⟨"local_middlewares", .list (.record .middleware), false⟩,
     ⟨"global_indices", .list .number, false⟩, ⟨"params", .list (.record .param), false⟩,
     ⟨"body", .text, false⟩, .place]
  | .endpoint =>
    [⟨"service_interface_name", .text, false⟩, ⟨"server_wrapper_name", .text, false⟩]
  | .service =>
    [⟨"implementor_type", .text, false⟩, ⟨"bases", .list (.record .type), false⟩,
     ⟨"methods", .list (.record .rpc), false⟩, ⟨"registry", .list (.record .middleware), false⟩,
     ⟨"args", .record .endpoint, false⟩]

/-- The names of the shapes of an annotation's argument. -/
def argumentKindNames : List String := ["path", "literal", "call"]

variable {τ : Type}

/-- The record of a place that is nowhere. -/
def nowhere : Json τ := .obj [("line", .null), ("column", .null)]

/-- What comes of each member of an object, given the shape of its field. -/
abbrev Readings (τ : Type) := List (String × (Shape → Except (RecordFault τ) (Json τ)))

/-- The fields of a record, each with what comes of its member. -/
def Readings.collect (readings : Readings τ) :
    List Field → Except (RecordFault τ) (List (String × Json τ)) :=
  List.mapM fun field =>
    match readings.lookup field.name, field.isPlace with
    | some read, _ => (read field.shape).map fun value => (field.name, value)
    | none, true => .ok (field.name, nowhere)
    | none, false => .error (.missing field.name)

variable [Spelled τ] [DecidableEq τ]

namespace Shape

/-- Bring a text to a shape. -/
def ofText (given : τ) : Shape → Except (RecordFault τ) (Json τ)
  | .text => .ok (.str given)
  | .number =>
    match Text.numeral given with
    | .ok i => .ok (.int i)
    | .error fault => .error (.numeral given fault)
  | .argumentKind =>
    if given ∈ argumentKindNames.map Spelled.ofString then .ok (.str given)
    else .error (.argumentKind (.str given))
  | .record _ => .error (.noMembers (.str given))
  | .list item => ((Spelled.singles given).mapM fun single => item.ofText single).map .arr

/-- Bring a value that is neither a list with items nor a record with fields to a shape. -/
def ofValue (value : Json τ) (shape : Shape) : Except (RecordFault τ) (Json τ) :=
  match value, shape with
  | .str given, shape => shape.ofText given
  | value, .text => .ok (.str value.display)
  | .bool b, .number => .ok (.bool b)
  | .int i, .number => .ok (.int i)
  | value, .number => .error (.notNumber value)
  | value, .argumentKind => .error (.argumentKind value)
  | value, .record _ => .error (.noMembers value)
  | .obj members, .list item =>
    (members.mapM fun member => item.ofText (Spelled.ofString member.1)).map .arr
  | value, .list _ => .error (.noItems value)

mutual

/-- Bring a value to a shape. -/
def ofJson : Json τ → Shape → Except (RecordFault τ) (Json τ)
  | .obj members, .record kind => ((readings members).collect kind.fields).map .obj
  | .arr items, .list item => (ofItems items item).map .arr
  | value, shape => shape.ofValue value

/-- What comes of each member of an object. A null member stays null. -/
def readings : List (String × Json τ) → Readings τ
  | [] => []
  | (key, value) :: members =>
    (key, fun shape => if value = .null then .ok .null else ofJson value shape) ::
      readings members

/-- Bring the items of a list to a shape, in order. -/
def ofItems : List (Json τ) → Shape → Except (RecordFault τ) (List (Json τ))
  | [], _ => .ok []
  | item :: items, shape => do
    let first ← ofJson item shape
    let rest ← ofItems items shape
    return first :: rest

end

/-- What comes of the value of a field. -/
def ofField (value : Json τ) (shape : Shape) : Except (RecordFault τ) (Json τ) :=
  if value = .null then .ok .null else ofJson value shape

/-- The member of a field is brought to its shape, and no other member matters. -/
theorem lookup_readings (members : List (String × Json τ)) (key : String) :
    (readings members).lookup key = (members.lookup key).map ofField := by
  induction members with
  | nil => simp [readings]
  | cons member members ih =>
    obtain ⟨name, value⟩ := member
    simp only [readings, List.lookup_cons]
    split
    · rfl
    · exact ih

theorem ofJson_obj (members : List (String × Json τ)) (kind : RecordKind) :
    ofJson (.obj members) (.record kind) =
      ((readings members).collect kind.fields).map .obj := by
  rw [ofJson]

theorem ofJson_arr (items : List (Json τ)) (item : Shape) :
    ofJson (.arr items) (.list item) = (ofItems items item).map .arr := by
  rw [ofJson]

theorem ofJson_str (given : τ) (shape : Shape) :
    ofJson (.str given) shape = shape.ofText given := by
  cases shape <;> simp [ofJson, ofValue]

/-- The items of a list are brought to a shape one by one. -/
theorem ofItems_eq_mapM (items : List (Json τ)) (shape : Shape) :
    ofItems items shape = items.mapM fun item => ofJson item shape := by
  induction items with
  | nil => simp [ofItems, pure, Except.pure]
  | cons item items ih => simp [ofItems, List.mapM_cons, ih]

end Shape

/-- The normal form of a value as a record of a kind. -/
def RecordKind.normal (kind : RecordKind) (value : Json τ) : Except (RecordFault τ) (Json τ) :=
  Shape.ofJson value (.record kind)

end Interpose
