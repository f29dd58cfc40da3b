import Interpose.Json.Literal
import Interpose.Text.Numeral

/-!
# Records

A record is an object whose members are the fields of a construct. This module holds why a value
is refused as a record, and how the parts of a construct are written into one and read back. What
texts consist of is left open.
-/

namespace Interpose

/-- Why a record is refused. -/
inductive RecordFault (τ : Type := String) where
  /-- A field is missing. -/
  | missing (field : String)
  /-- Where a record should stand, a value has no members. -/
  | noMembers (value : Json τ)
  /-- Where a list should stand, a value has no items. -/
  | noItems (value : Json τ)
  /-- Where a number should stand, a value is neither a number nor a text. -/
  | notNumber (value : Json τ)
  /-- Where a number should stand, a text is no numeral. -/
  | numeral (text : τ) (fault : Text.NumeralFault)
  /-- A value is none of the shapes of an annotation's argument. -/
  | argumentKind (value : Json τ)
  deriving DecidableEq, Repr

/-- What a fault of a record says. -/
def RecordFault.message {τ : Type} [Text.Spelled τ] : RecordFault τ → String
  | .missing field => Text.quoted field
  | .noMembers value => Text.quoted value.className ++ " object has no attribute 'items'"
  | .noItems value => Text.quoted value.className ++ " object is not iterable"
  | .notNumber value =>
    "int() argument must be a string, a bytes-like object or a real number, not " ++
      Text.quoted value.className
  | .numeral text fault => fault.message text
  | .argumentKind value => value.literal ++ " is not a valid ArgKind"

namespace Record

variable {τ α : Type}

/-- Write a value that may be null. -/
def ofOption (write : α → Json τ) : Option α → Json τ
  | none => .null
  | some a => write a

/-- Write a list. -/
def ofList (write : α → Json τ) (items : List α) : Json τ := .arr (items.map write)

/-- Read a number. -/
def number? : Json τ → Option Int
  | .int i => some i
  | _ => none

/-- Read a value that may be null. -/
def option? (read : Json τ → Option α) : Json τ → Option (Option α)
  | .null => some none
  | value => (read value).map some

/-- Read the items of a list. -/
def list? (read : Json τ → Option α) : Json τ → Option (List α)
  | .arr items => items.mapM read
  | _ => none

end Record

end Interpose
