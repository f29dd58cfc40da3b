import Interpose.Json.Printer

/-!
# Values in messages

How a value stands in a message: nothing, truth values and numbers by name, texts quoted, lists
in brackets and objects in braces with quoted member names. A text that is a message by itself
stands unquoted.
-/

namespace Interpose.Json

open Text (Spelled)

section

variable {τ : Type} [Spelled τ]

mutual

/-- A value as it stands inside a message. -/
def literal : Json τ → String
  | .null => "None"
  | .bool true => "True"
  | .bool false => "False"
  | .int i => String.ofList (intChars i)
  | .str s => Text.quoted s
  | .arr [] => "[]"
  | .arr (item :: items) => "[" ++ literal item ++ literalItems items ++ "]"
  | .obj [] => "\x7b\x7d"
  | .obj ((key, value) :: members) =>
    "\x7b" ++ Text.quoted key ++ ": " ++ literal value ++ literalMembers members ++ "\x7d"

/-- The items after the first one, each after its separator. -/
def literalItems : List (Json τ) → String
  | [] => ""
  | item :: items => ", " ++ literal item ++ literalItems items

/-- The members after the first one, each after its separator. -/
def literalMembers : List (String × Json τ) → String
  | [] => ""
  | (key, value) :: members =>
    ", " ++ Text.quoted key ++ ": " ++ literal value ++ literalMembers members

end

/-- A value as a message. -/
def display : Json τ → τ
  | .str s => s
  | value => Spelled.ofString value.literal

/-- The name of the class of a value. -/
def className : Json τ → String
  | .null => "NoneType"
  | .bool _ => "bool"
  | .int _ => "int"
  | .str _ => "str"
  | .arr _ => "list"
  | .obj _ => "dict"

/-- Several values in parentheses; a single one is followed by a comma. -/
def tupleText : List (Json τ) → String
  | [] => "()"
  | [item] => "(" ++ item.literal ++ ",)"
  | item :: items => "(" ++ item.literal ++ literalItems items ++ ")"

end

example : (Json.arr [.null, .bool true, .str "it's"]).literal = "[None, True, \"it's\"]" := by
  decide +kernel

end Interpose.Json
