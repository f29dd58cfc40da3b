import Interpose.Text.CodePoint
import Interpose.Text.Printable

/-!
# Quoted texts

The quoted form of a text: the text between single quotes, or between double quotes when it
holds a single quote and no double one. The quote in use, the backslash, every character that is
not printable and every surrogate are escaped, so the form is one line and shows what it stands
for.
-/

namespace Interpose.Text

/-- A number in lower-case hexadecimal digits, with leading zeros up to the given width. -/
def hexDigits (width n : Nat) : List Char :=
  let digits := Nat.toDigits 16 n
  List.replicate (width - digits.length) '0' ++ digits

/-- The escape of a character that is not printable, as short as its code point allows. -/
def escapeCode (c : Char) : List Char :=
  if c.toNat < 0x100 then '\\' :: 'x' :: hexDigits 2 c.toNat
  else if c.toNat < 0x10000 then '\\' :: 'u' :: hexDigits 4 c.toNat
  else '\\' :: 'U' :: hexDigits 8 c.toNat

/-- One character inside a text quoted with `quote`. -/
def escapeWithin (quote c : Char) : List Char :=
  if c = quote ∨ c = '\\' then ['\\', c]
  else if c = '\n' then ['\\', 'n']
  else if c = '\r' then ['\\', 'r']
  else if c = '\t' then ['\\', 't']
  else if isPrintable c then [c]
  else escapeCode c

/-- One code point inside a text quoted with `quote`. -/
def escapePointWithin (quote : Char) : CodePoint → List Char
  | .char c => escapeWithin quote c
  | .surrogate index => '\\' :: 'u' :: hexDigits 4 (CodePoint.surrogate index).toNat

/-- The quote that a text is written with. -/
def quoteFor (text : List CodePoint) : Char :=
  if text.contains (.char '\'') && !text.contains (.char '"') then '"' else '\''

/-- The quoted form of a text. -/
def quoted {τ : Type} [Spelled τ] (text : τ) : String :=
  let points := Spelled.points text
  let quote := quoteFor points
  String.ofList (quote :: points.flatMap (escapePointWithin quote) ++ [quote])

example : quoted "plain" = "'plain'" := by decide +kernel
example : quoted "it's" = "\"it's\"" := by decide +kernel
example : quoted "a\n\u200b" = "'a\\n\\u200b'" := by decide +kernel

end Interpose.Text
