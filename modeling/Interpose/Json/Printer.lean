import Interpose.Json.Basic
import Interpose.Text.CodePoint
import Interpose.Text.Quoted

/-!
# JSON texts

A value is written either on one line, with a blank after each comma and colon, or indented by
two columns a level with every item on a line of its own. Both forms are ASCII: every other
character is escaped by its UTF-16 units, and a surrogate as the unit that it is.
-/

namespace Interpose.Json

open Text (CodePoint Spelled)

/-- How the items of lists and objects are set apart. -/
inductive Style where
  /-- All items on one line. -/
  | line
  /-- Each item on a line of its own. -/
  | indented
  deriving DecidableEq, Repr

/-- A newline and the indentation of a level. -/
def newLine (level : Nat) : List Char := '\n' :: List.replicate (2 * level) ' '

/-- What stands between the opening bracket and the first item of a level. -/
def Style.opening (level : Nat) : Style → List Char
  | .line => []
  | .indented => newLine level

/-- What stands between two items of a level. -/
def Style.between (level : Nat) : Style → List Char
  | .line => [',', ' ']
  | .indented => ',' :: newLine level

/-- What stands between the last item of a level and the closing bracket. -/
def Style.closing (level : Nat) : Style → List Char
  | .line => []
  | .indented => newLine (level - 1)

/-- One UTF-16 unit as an escape. -/
def unitEscape (unit : Nat) : List Char := '\\' :: 'u' :: Text.hexDigits 4 unit

/-- One character of a text between double quotes. -/
def escapeChar (c : Char) : List Char :=
  if c = '"' ∨ c = '\\' then ['\\', c]
  else if c = '\n' then ['\\', 'n']
  else if c = '\r' then ['\\', 'r']
  else if c = '\t' then ['\\', 't']
  else if c = '\x08' then ['\\', 'b']
  else if c = '\x0c' then ['\\', 'f']
  else if ' ' ≤ c ∧ c ≤ '~' then [c]
  else if c.toNat < 0x10000 then unitEscape c.toNat
  else
    unitEscape (0xD800 + (c.toNat - 0x10000) / 0x400) ++
      unitEscape (0xDC00 + (c.toNat - 0x10000) % 0x400)

/-- One code point of a text between double quotes. -/
def escapePoint : CodePoint → List Char
  | .char c => escapeChar c
  | .surrogate index => unitEscape (CodePoint.surrogate index).toNat

/-- A text between double quotes. -/
def textChars {τ : Type} [Spelled τ] (text : τ) : List Char :=
  '"' :: (Spelled.points text).flatMap escapePoint ++ ['"']

/-- An integer in decimal. -/
def intChars : Int → List Char
  | .ofNat n => Nat.toDigits 10 n
  | .negSucc n => '-' :: Nat.toDigits 10 (n + 1)

section

variable {τ : Type} [Spelled τ]

mutual

/-- The characters of a value whose items stand at `level`. -/
def chars (style : Style) (level : Nat) : Json τ → List Char
  | .null => ['n', 'u', 'l', 'l']
  | .bool true => ['t', 'r', 'u', 'e']
  | .bool false => ['f', 'a', 'l', 's', 'e']
  | .int i => intChars i
  | .str s => textChars s
  | .arr [] => ['[', ']']
  | .arr (item :: items) =>
    '[' :: style.opening level ++ chars style (level + 1) item ++
      itemsChars style level items ++ style.closing level ++ [']']
  | .obj [] => ['\x7b', '\x7d']
  | .obj ((key, value) :: members) =>
    '\x7b' :: style.opening level ++ textChars key ++ [':', ' '] ++
      chars style (level + 1) value ++ membersChars style level members ++
      style.closing level ++ ['\x7d']

/-- The items after the first one, each after what sets it apart. -/
def itemsChars (style : Style) (level : Nat) : List (Json τ) → List Char
  | [] => []
  | item :: items =>
    style.between level ++ chars style (level + 1) item ++ itemsChars style level items

/-- The members after the first one, each after what sets it apart. -/
def membersChars (style : Style) (level : Nat) : List (String × Json τ) → List Char
  | [] => []
  | (key, value) :: members =>
    style.between level ++ textChars key ++ [':', ' '] ++ chars style (level + 1) value ++
      membersChars style level members

end

/-- The text of a value in a style. -/
def render (style : Style) (value : Json τ) : String := String.ofList (value.chars style 1)

/-- The text of a value on one line. -/
def toText (value : Json τ) : String := value.render .line

end

example : (Json.obj [("a", .arr [.int (-1), .null]), ("b", .str "\u00e9")]).toText =
    "\x7b\"a\": [-1, null], \"b\": \"\\u00e9\"\x7d" := by decide +kernel

example : (Json.obj [("a", .arr [.int 1]), ("b", .arr [])] : Json).render .indented =
    "\x7b\n  \"a\": [\n    1\n  ],\n  \"b\": []\n\x7d" := by decide +kernel

end Interpose.Json
