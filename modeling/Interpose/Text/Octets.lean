import Interpose.Text.CodePoint
import Interpose.Text.Quoted

/-!
# Octets

Texts are stored as UTF-8. Reading goes octet by octet: between characters an octet begins a
character of one to four octets, and inside a character the next octet has to lie in a range.
The first octet that does not fit ends the reading. Writing ends at the first surrogate, which has
no octets.
-/

namespace Interpose.Text

/-- Why octets are no text, or a text has no octets. -/
inductive OctetCause where
  /-- No character begins with the octet. -/
  | start
  /-- The character does not go on with the next octet. -/
  | continuation
  /-- The octets end inside a character. -/
  | ending
  /-- The text holds a surrogate. -/
  | surrogate
  deriving DecidableEq, Repr

/-- Where and why octets stop being a text, or a text stops having octets. -/
structure OctetFault where
  /-- The octet that begins the faulty character, or the number of the first surrogate. -/
  octet : Nat
  /-- Its position. -/
  first : Nat
  /-- The position after the last octet that fits, or after the surrogates that follow. -/
  stop : Nat
  /-- Why they do not stand for each other. -/
  cause : OctetCause
  deriving DecidableEq, Repr

/-- A character of which some octets are still to come. -/
structure OpenChar where
  /-- Its first octet. -/
  octet : Nat
  /-- The position of its first octet. -/
  first : Nat
  /-- The bits read so far. -/
  bits : Nat
  /-- The number of octets that follow the next one. -/
  more : Nat
  /-- The least that the next octet may be. -/
  low : Nat
  /-- The greatest that the next octet may be. -/
  high : Nat
  deriving DecidableEq, Repr

/-- The character that an octet above the ASCII range begins at a position, if it begins one. -/
def openChar? (position octet : Nat) : Option OpenChar :=
  if 0xC2 ≤ octet ∧ octet ≤ 0xDF then some ⟨octet, position, octet - 0xC0, 0, 0x80, 0xBF⟩
  else if octet = 0xE0 then some ⟨octet, position, 0, 1, 0xA0, 0xBF⟩
  else if octet = 0xED then some ⟨octet, position, 0xD, 1, 0x80, 0x9F⟩
  else if 0xE1 ≤ octet ∧ octet ≤ 0xEF then some ⟨octet, position, octet - 0xE0, 1, 0x80, 0xBF⟩
  else if octet = 0xF0 then some ⟨octet, position, 0, 2, 0x90, 0xBF⟩
  else if 0xF1 ≤ octet ∧ octet ≤ 0xF3 then some ⟨octet, position, octet - 0xF0, 2, 0x80, 0xBF⟩
  else if octet = 0xF4 then some ⟨octet, position, 4, 2, 0x80, 0x8F⟩
  else none

/-- Read octets from a position on, inside a character or between two. -/
def decodeFrom (position : Nat) : Option OpenChar → List UInt8 → Except OctetFault (List Char)
  | none, [] => .ok []
  | some char, [] => .error ⟨char.octet, char.first, position, .ending⟩
  | none, b :: bs =>
    let octet := b.toNat
    if octet < 0x80 then (decodeFrom (position + 1) none bs).map (Char.ofNat octet :: ·)
    else
      match openChar? position octet with
      | some char => decodeFrom (position + 1) (some char) bs
      | none => .error ⟨octet, position, position + 1, .start⟩
  | some char, b :: bs =>
    let octet := b.toNat
    if char.low ≤ octet ∧ octet ≤ char.high then
      let bits := char.bits * 0x40 + (octet - 0x80)
      match char.more with
      | 0 => (decodeFrom (position + 1) none bs).map (Char.ofNat bits :: ·)
      | more + 1 =>
        decodeFrom (position + 1) (some { char with bits, more, low := 0x80, high := 0xBF }) bs
    else .error ⟨char.octet, char.first, position, .continuation⟩

/-- The text that octets stand for. -/
def decodeOctets (octets : List UInt8) : Except OctetFault (List Char) := decodeFrom 0 none octets

/-- The octets of a text. -/
def encodeOctets (text : String) : List UInt8 := text.toList.flatMap String.utf8EncodeChar

/-- The octets of code points from a position on. -/
def encodeFrom (position : Nat) : List CodePoint → Except OctetFault (List UInt8)
  | [] => .ok []
  | .char c :: rest => (encodeFrom (position + 1) rest).map (String.utf8EncodeChar c ++ ·)
  | .surrogate index :: rest =>
    let more := (rest.takeWhile CodePoint.isSurrogate).length
    .error ⟨(CodePoint.surrogate index).toNat, position, position + 1 + more, .surrogate⟩

/-- The octets of code points. -/
def encodePoints (points : List CodePoint) : Except OctetFault (List UInt8) := encodeFrom 0 points

/-- A cause in words. -/
def OctetCause.text : OctetCause → String
  | .start => "invalid start byte"
  | .continuation => "invalid continuation byte"
  | .ending => "unexpected end of data"
  | .surrogate => "surrogates not allowed"

namespace OctetFault

/-- What could not be done, and with what. -/
def action (fault : OctetFault) : String :=
  if fault.cause = .surrogate then "encode character" else "decode byte"

/-- The octet or the code point at which a fault is. -/
def shown (fault : OctetFault) : String :=
  if fault.cause = .surrogate then "'\\u" ++ String.ofList (hexDigits 4 fault.octet) ++ "'"
  else "0x" ++ String.ofList (hexDigits 2 fault.octet)

/-- What a fault of octets says. -/
def message (fault : OctetFault) : String :=
  "'utf-8' codec can't " ++ fault.action ++
    (if fault.stop = fault.first + 1 then
      " " ++ fault.shown ++ " in position " ++ toString fault.first
    else "s in position " ++ toString fault.first ++ "-" ++ toString (fault.stop - 1)) ++
    ": " ++ fault.cause.text

end OctetFault

example : decodeOctets [0x23, 0xC3, 0x28] = .error ⟨0xC3, 1, 2, .continuation⟩ := by rfl
example : decodeOctets (encodeOctets "aé漢😀") = .ok ['a', 'é', '漢', '😀'] := by rfl

end Interpose.Text
