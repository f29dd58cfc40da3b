import Interpose.Json.Basic
import Interpose.Text.CodePoint

/-!
# Reading JSON texts

The reader accepts one value with blanks around it and nothing else. A number is an integer:
a fraction or an exponent is refused. The reader walks the text once; its fuel is the length of
the text, and every nested value begins at least one character later.
-/

namespace Interpose.Json.Reader

open Text (CodePoint Spelled)

/-- Whether a character may stand between the parts of a value. -/
def isGap (c : Char) : Bool := c = ' ' || c = '\n' || c = '\r' || c = '\t'

/-- Remove the gap at the front. -/
def skipGap (cs : List Char) : List Char := cs.dropWhile isGap

/-- The value of a hexadecimal digit. -/
def hexValue? (c : Char) : Option Nat :=
  if '0' ≤ c ∧ c ≤ '9' then some (c.toNat - 48)
  else if 'a' ≤ c ∧ c ≤ 'f' then some (c.toNat - 87)
  else if 'A' ≤ c ∧ c ≤ 'F' then some (c.toNat - 55)
  else none

/-- The UTF-16 unit that four hexadecimal digits stand for. -/
def unit? (a b c d : Char) : Option Nat := do
  let a ← hexValue? a
  let b ← hexValue? b
  let c ← hexValue? c
  let d ← hexValue? d
  return ((a * 16 + b) * 16 + c) * 16 + d

/-- The character that a backslash and a letter stand for. -/
def escape? (c : Char) : Option Nat :=
  if c = '"' ∨ c = '\\' ∨ c = '/' then some c.toNat
  else if c = 'n' then some 10
  else if c = 'r' then some 13
  else if c = 't' then some 9
  else if c = 'b' then some 8
  else if c = 'f' then some 12
  else none

/-- The units of a text, after its opening quote, and what follows its closing quote. -/
def units : List Char → Option (List Nat × List Char)
  | [] => none
  | '"' :: rest => some ([], rest)
  | '\\' :: 'u' :: a :: b :: c :: d :: rest => do
    let unit ← unit? a b c d
    let (more, rest) ← units rest
    return (unit :: more, rest)
  | '\\' :: c :: rest => do
    let unit ← escape? c
    let (more, rest) ← units rest
    return (unit :: more, rest)
  | c :: rest => do
    let (more, rest) ← units rest
    return (c.toNat :: more, rest)

/-- Join each pair of surrogate units into the character that it stands for. -/
def joinUnits : List Nat → List CodePoint
  | [] => []
  | [unit] => [CodePoint.ofNat unit]
  | high :: low :: rest =>
    if 0xD800 ≤ high ∧ high < 0xDC00 ∧ 0xDC00 ≤ low ∧ low < 0xE000 then
      .char (Char.ofNat (0x10000 + (high - 0xD800) * 0x400 + (low - 0xDC00))) :: joinUnits rest
    else CodePoint.ofNat high :: joinUnits (low :: rest)

/-- A text after its opening quote. -/
def text? {τ : Type} [Spelled τ] (cs : List Char) : Option (τ × List Char) := do
  let (read, rest) ← units cs
  let text ← Spelled.ofPoints? (joinUnits read)
  return (text, rest)

/-- The number that decimal digits stand for. -/
def decimal (digits : List Char) : Nat := digits.foldl (fun n d => n * 10 + (d.toNat - 48)) 0

/-- A natural number at the front. -/
def nat? (cs : List Char) : Option (Nat × List Char) :=
  match cs.takeWhile Char.isDigit with
  | [] => none
  | digits => some (decimal digits, cs.dropWhile Char.isDigit)

/-- The rest of a text after a word that it begins with. -/
def word? : List Char → List Char → Option (List Char)
  | [], cs => some cs
  | w :: ws, c :: cs => if w = c then word? ws cs else none
  | _ :: _, [] => none

section

variable {τ : Type} [Spelled τ]

mutual

/-- A value at the front, and what follows it. -/
def value? : Nat → List Char → Option (Json τ × List Char)
  | 0, _ => none
  | fuel + 1, cs =>
    match skipGap cs with
    | '"' :: rest => (text? rest).map fun (s, rest) => (.str s, rest)
    | '[' :: rest =>
      match skipGap rest with
      | ']' :: rest => some (.arr [], rest)
      | rest => (items? fuel rest).map fun (items, rest) => (.arr items, rest)
    | '\x7b' :: rest =>
      match skipGap rest with
      | '\x7d' :: rest => some (.obj [], rest)
      | rest => (members? fuel rest).map fun (members, rest) => (.obj members, rest)
    | '-' :: rest => (nat? rest).map fun (n, rest) => (.int (-n), rest)
    | rest =>
      match nat? rest with
      | some (n, rest) => some (.int n, rest)
      | none =>
        ((word? ['n', 'u', 'l', 'l'] rest).map (Prod.mk .null)).or
          (((word? ['t', 'r', 'u', 'e'] rest).map (Prod.mk (.bool true))).or
            ((word? ['f', 'a', 'l', 's', 'e'] rest).map (Prod.mk (.bool false))))

/-- The items of a list up to its closing bracket. -/
def items? : Nat → List Char → Option (List (Json τ) × List Char)
  | 0, _ => none
  | fuel + 1, cs => do
    let (item, rest) ← value? fuel cs
    match skipGap rest with
    | ',' :: rest =>
      let (items, rest) ← items? fuel rest
      return (item :: items, rest)
    | ']' :: rest => return ([item], rest)
    | _ => none

/-- The members of an object up to its closing brace. -/
def members? : Nat → List Char → Option (List (String × Json τ) × List Char)
  | 0, _ => none
  | fuel + 1, cs =>
    match skipGap cs with
    | '"' :: rest => do
      let (key, rest) ← text? rest
      match skipGap rest with
      | ':' :: rest =>
        let (value, rest) ← value? fuel rest
        match skipGap rest with
        | ',' :: rest =>
          let (members, rest) ← members? fuel rest
          return ((key, value) :: members, rest)
        | '\x7d' :: rest => return ([(key, value)], rest)
        | _ => none
      | _ => none
    | _ => none

end

end

end Interpose.Json.Reader

namespace Interpose.Json

/-- The value that a text stands for. -/
def parse? {τ : Type} [Text.Spelled τ] (text : String) : Option (Json τ) :=
  let cs := text.toList
  match Reader.value? (2 * cs.length + 2) cs with
  | some (value, rest) => if Reader.skipGap rest = [] then some value else none
  | none => none

example : parse? " [1, \x7b\"a\": \"\\ud83d\\ude00\"\x7d, null] " =
    some (.arr [.int 1, .obj [("a", .str "😀")], .null]) := by decide +kernel

end Interpose.Json
