import Interpose.Definition.Basic
import Interpose.Record.Shape

/-!
# Definitions as records

Every construct of a definition has a record with its span among the fields, and can be had back
from it. A record in normal form need not be that of a construct: a field may be null, or a truth
value may stand for a number.
-/

namespace Interpose

open Record
open Text (Spelled)

variable {τ : Type}

namespace Span

/-- A span as a record. -/
def toRecord (span : Span) : Json τ :=
  .obj [("line", ofOption .int span.line), ("column", ofOption .int span.column)]

/-- The span of a record. -/
def ofRecord? : Json τ → Option Span
  | .obj [("line", line), ("column", column)] => do
    return ⟨← option? number? line, ← option? number? column⟩
  | _ => none

/-- The record of a span that is nowhere is what stands for a missing one. -/
theorem toRecord_none : (Span.none.toRecord : Json τ) = nowhere := rfl

end Span

namespace TypeExpr

mutual

/-- A type as a record. -/
def toRecord : TypeExpr τ → Json τ
  | ⟨name, args, span⟩ =>
    .obj [("name", .str name), ("args", .arr (toRecords args)), ("span", span.toRecord)]

/-- Types as records. -/
def toRecords : List (TypeExpr τ) → List (Json τ)
  | [] => []
  | type :: types => toRecord type :: toRecords types

end

mutual

/-- The type of a record. -/
def ofRecord? : Json τ → Option (TypeExpr τ)
  | .obj [("name", .str name), ("args", .arr args), ("span", span)] => do
    return ⟨name, ← ofRecords? args, ← Span.ofRecord? span⟩
  | _ => none

/-- The types of records. -/
def ofRecords? : List (Json τ) → Option (List (TypeExpr τ))
  | [] => some []
  | item :: items => do return (← ofRecord? item) :: (← ofRecords? items)

end

end TypeExpr

namespace ArgumentKind

/-- The name of a shape. -/
def name : ArgumentKind → String
  | .path => "path"
  | .literal => "literal"
  | .call => "call"

variable [Spelled τ] [DecidableEq τ]

/-- The shape of a name. -/
def ofName (value : Json τ) : Except (RecordFault τ) ArgumentKind :=
  if value = .str (Spelled.ofString "path") then .ok .path
  else if value = .str (Spelled.ofString "literal") then .ok .literal
  else if value = .str (Spelled.ofString "call") then .ok .call
  else .error (.argumentKind value)

end ArgumentKind

namespace Argument

variable [Spelled τ]

/-- An argument as a record. -/
def toRecord (argument : Argument τ) : Json τ :=
  .obj [("kind", .str (Spelled.ofString argument.kind.name)), ("value", .str argument.value),
    ("span", argument.span.toRecord)]

/-- The argument of a record. -/
def ofRecord? [DecidableEq τ] : Json τ → Option (Argument τ)
  | .obj [("kind", kind), ("value", .str value), ("span", span)] => do
    return ⟨← (ArgumentKind.ofName kind).toOption, value, ← Span.ofRecord? span⟩
  | _ => none

end Argument

namespace Annotation

variable [Spelled τ]

/-- An annotation as a record. -/
def toRecord (note : Annotation τ) : Json τ :=
  .obj [("name", .str note.name), ("arguments", ofOption (ofList Argument.toRecord) note.arguments),
    ("span", note.span.toRecord)]

/-- The annotation of a record. -/
def ofRecord? [DecidableEq τ] : Json τ → Option ( Annotation τ)
  | .obj [("name", .str name), ("arguments", arguments), ("span", span)] => do
    return ⟨name, ← option? (list? Argument.ofRecord?) arguments, ← Span.ofRecord? span⟩
  | _ => none

end Annotation

namespace Import

/-- An import as a record. -/
def toRecord (line : Import τ) : Json τ := .obj [("text", .str line.text)]

/-- The import of a record. -/
def ofRecord? : Json τ → Option (Import τ)
  | .obj [("text", .str line)] => some ⟨line⟩
  | _ => none

end Import

namespace Param

/-- A parameter as a record. -/
def toRecord (param : Param τ) : Json τ :=
  .obj [("name", .str param.name), ("type", ofOption TypeExpr.toRecord param.type),
    ("span", param.span.toRecord)]

/-- The parameter of a record. -/
def ofRecord? : Json τ → Option (Param τ)
  | .obj [("name", .str name), ("type", type), ("span", span)] => do
    return ⟨name, ← option? TypeExpr.ofRecord? type, ← Span.ofRecord? span⟩
  | _ => none

end Param

namespace MethodDef

variable [Spelled τ]

/-- A written method as a record. -/
def toRecord (method : MethodDef τ τ) : Json τ :=
  .obj [("name", .str method.name), ("params", ofList Param.toRecord method.params),
    ("return_type", ofOption TypeExpr.toRecord method.result), ("body", .str method.body),
    ("annotations", ofList Annotation.toRecord method.annotations),
    ("span", method.span.toRecord)]

/-- The written method of a record. -/
def ofRecord? [DecidableEq τ] : Json τ → Option (MethodDef τ τ)
  | .obj [("name", .str name), ("params", params), ("return_type", result), ("body", .str body),
      ("annotations", notes), ("span", span)] => do
    return ⟨name, ← list? Param.ofRecord? params, ← option? TypeExpr.ofRecord? result, body,
      ← list? Annotation.ofRecord? notes, ← Span.ofRecord? span⟩
  | _ => none

end MethodDef

namespace ImplDef

variable [Spelled τ]

/-- A service block as a record. -/
def toRecord (impl : ImplDef τ τ) : Json τ :=
  .obj [("name", .str impl.name), ("bases", ofList TypeExpr.toRecord impl.bases),
    ("methods", ofList MethodDef.toRecord impl.methods),
    ("annotations", ofList Annotation.toRecord impl.annotations), ("span", impl.span.toRecord)]

/-- The service block of a record. -/
def ofRecord? [DecidableEq τ] : Json τ → Option (ImplDef τ τ)
  | .obj [("name", .str name), ("bases", bases), ("methods", methods), ("annotations", notes),
      ("span", span)] => do
    return ⟨name, ← list? TypeExpr.ofRecord? bases, ← list? MethodDef.ofRecord? methods,
      ← list? Annotation.ofRecord? notes, ← Span.ofRecord? span⟩
  | _ => none

end ImplDef

end Interpose
