import Interpose.Text.Blank
import Interpose.Text.Digit
import Interpose.Text.Quoted

/-!
# Numerals

Integers written in decimal. A numeral is a sign, if any, and digits of any script, with single
low lines between digits as the writer likes; blanks may stand around it. Very long numerals are
refused.
-/

namespace Interpose.Text

/-- Why a text is no numeral. -/
inductive NumeralFault where
  /-- The text is not written as a numeral is. -/
  | malformed
  /-- There are more digits than a numeral may have. -/
  | tooLong (digits : Nat)
  deriving DecidableEq, Repr

/-- The most digits that a numeral may have. -/
def longestNumeral : Nat := 4300

/-- The longest part of a text that a message about its numeral shows. -/
def longestExcerpt : Nat := 200

/-- What a fault of a numeral says about the text. -/
def NumeralFault.message {τ : Type} [Spelled τ] (text : τ) : NumeralFault → String
  | .malformed =>
    "invalid literal for int() with base 10: " ++
      String.ofList ((quoted text).toList.take longestExcerpt)
  | .tooLong digits =>
    "Exceeds the limit (" ++ toString longestNumeral ++
      " digits) for integer string conversion: value has " ++ toString digits ++
      " digits; use sys.set_int_max_str_digits() to increase the limit"

/-- Whether a character may stand around a numeral: a blank that is no information separator. -/
def surroundsNumeral (c : Char) : Bool := isBlank c && !('\x1c' ≤ c && c ≤ '\x1f')

/-- The values of a run of digits in which single low lines may stand between two digits. -/
def digitRun? : List Char → Option (List Nat)
  | [] => none
  | [c] => (digitValue? c).map fun value => [value]
  | c :: '_' :: cs => do return (← digitValue? c) :: (← digitRun? cs)
  | c :: cs => do return (← digitValue? c) :: (← digitRun? cs)

/-- The number that digits are written for. -/
def ofDigits (digits : List Nat) : Nat := digits.foldl (fun value digit => 10 * value + digit) 0

/-- Whether a numeral is negative, and what follows its sign. -/
def splitSign : List Char → Bool × List Char
  | '-' :: cs => (true, cs)
  | '+' :: cs => (false, cs)
  | cs => (false, cs)

/-- The character that a code point counts as in a numeral. A surrogate is neither a blank nor a
digit. -/
def CodePoint.inNumeral (point : CodePoint) : Char := point.char?.getD '?'

/-- The integer that a text is the numeral of. The digits are counted before anything after them
is looked at. -/
def numeral {τ : Type} [Spelled τ] (text : τ) : Except NumeralFault Int :=
  let given := (Spelled.points text).map CodePoint.inNumeral
  let (negative, cs) := splitSign (given.dropWhile surroundsNumeral)
  let written (c : Char) : Bool := isDecimalDigit c || c == '_'
  match digitRun? (cs.takeWhile written) with
  | none => .error .malformed
  | some digits =>
    if longestNumeral < digits.length then .error (.tooLong digits.length)
    else if (cs.dropWhile written).all surroundsNumeral then
      .ok (if negative then -(ofDigits digits : Int) else ofDigits digits)
    else .error .malformed

example : numeral " -1_000\n" = .ok (-1000) := by rfl
example : numeral "\u0663\u0664" = .ok 34 := by rfl
example : numeral "1__0" = .error .malformed := by rfl

end Interpose.Text
