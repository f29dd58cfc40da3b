/-!
# Code points

What reaches the program as a text consists of code points. Most of them are characters. The others
are surrogates, which come in pairs in UTF-16, where a high one and a low one stand for a character.
By itself a surrogate stands for nothing, so a string holds none.
-/

namespace Interpose.Text

/-- A code point. -/
inductive CodePoint where
  /-- A character. -/
  | char (c : Char)
  /-- A surrogate, by its index among all 2048. -/
  | surrogate (index : Fin 0x800)
  deriving DecidableEq, Repr

namespace CodePoint

/-- The number of a code point. -/
def toNat : CodePoint → Nat
  | .char c => c.toNat
  | .surrogate index => 0xD800 + index

/-- The code point with a number. -/
def ofNat (n : Nat) : CodePoint :=
  if h : 0xD800 ≤ n ∧ n < 0xE000 then .surrogate ⟨n - 0xD800, by omega⟩ else .char (Char.ofNat n)

/-- Whether a code point is a surrogate. -/
def isSurrogate : CodePoint → Bool
  | .char _ => false
  | .surrogate _ => true

/-- Whether a code point is a surrogate that stands first in a pair. -/
def isHigh (point : CodePoint) : Bool := 0xD800 ≤ point.toNat ∧ point.toNat < 0xDC00

/-- Whether a code point is a surrogate that stands second in a pair. -/
def isLow (point : CodePoint) : Bool := 0xDC00 ≤ point.toNat ∧ point.toNat < 0xE000

/-- A code point as a character. -/
def char? : CodePoint → Option Char
  | .char c => some c
  | .surrogate _ => none

@[simp] theorem toNat_char (c : Char) : (CodePoint.char c).toNat = c.toNat := rfl

@[simp] theorem toNat_surrogate (index : Fin 0x800) :
    (CodePoint.surrogate index).toNat = 0xD800 + index := rfl

/-- A character is no surrogate. -/
theorem not_surrogate_range (c : Char) : ¬(0xD800 ≤ c.toNat ∧ c.toNat < 0xE000) := by
  have hvalid : c.toNat < 0xD800 ∨ 0xDFFF < c.toNat ∧ c.toNat < 0x110000 := c.valid
  omega

@[simp] theorem isHigh_char (c : Char) : (CodePoint.char c).isHigh = false := by
  have hrange := not_surrogate_range c
  rw [isHigh, toNat_char, decide_eq_false_iff_not]
  omega

/-- There are no more code points than these. -/
theorem toNat_lt (point : CodePoint) : point.toNat < 0x110000 := by
  cases point with
  | char c =>
    have hvalid : c.toNat < 0xD800 ∨ 0xDFFF < c.toNat ∧ c.toNat < 0x110000 := c.valid
    rw [toNat_char]
    omega
  | surrogate index =>
    rw [toNat_surrogate]
    omega

/-- The code point with the number of a character is that character. -/
theorem ofNat_toNat_char (c : Char) : ofNat c.toNat = .char c := by
  rw [ofNat, dif_neg (not_surrogate_range c), Char.ofNat_toNat]

/-- A code point is told by its number. -/
@[simp] theorem ofNat_toNat (point : CodePoint) : ofNat point.toNat = point := by
  cases point with
  | char c => exact ofNat_toNat_char c
  | surrogate index =>
    have hrange : 0xD800 ≤ 0xD800 + index.val ∧ 0xD800 + index.val < 0xE000 := by omega
    rw [toNat_surrogate, ofNat, dif_pos hrange]
    simp

end CodePoint

/-! ## Texts of code points -/

/-- The code points of a string. -/
def points (text : String) : List CodePoint := text.toList.map .char

@[simp] theorem points_append (a b : String) : points (a ++ b) = points a ++ points b := by
  simp [points]

/-- The string of some code points, unless there is a surrogate among them. -/
def ofPoints? (points : List CodePoint) : Option String :=
  (points.mapM CodePoint.char?).map String.ofList

/-- A string is told by its code points. -/
@[simp] theorem ofPoints?_points (text : String) : ofPoints? (points text) = some text := by
  have hchars : ∀ cs : List Char, (cs.map CodePoint.char).mapM CodePoint.char? = some cs := by
    intro cs
    induction cs with
    | nil => rfl
    | cons c cs ih => simp [CodePoint.char?, ih]
  rw [ofPoints?, points, hchars, Option.map_some, String.ofList_toList]

/-- Texts that are made of code points. -/
class Spelled (τ : Type) where
  /-- The code points of a text. -/
  points : τ → List CodePoint
  /-- The text of some code points, if there is one. -/
  ofPoints? : List CodePoint → Option τ
  /-- The text that a string is. -/
  ofString : String → τ
  /-- The texts of the single code points of a text. -/
  singles : τ → List τ

instance : Spelled String :=
  ⟨points, ofPoints?, id, fun text => text.toList.map String.singleton⟩

instance : Spelled (List CodePoint) := ⟨id, some, points, fun text => text.map ([·])⟩

/-- Texts that are told by their code points. -/
class LawfulSpelled (τ : Type) [Spelled τ] : Prop where
  /-- A text is had back from its code points. -/
  ofPoints?_points : ∀ text : τ, Spelled.ofPoints? (Spelled.points text) = some text
  /-- A string keeps its code points. -/
  points_ofString : ∀ text : String, Spelled.points (Spelled.ofString text : τ) = points text
  /-- The single code points make up the text. -/
  flatMap_singles : ∀ text : τ,
    (Spelled.singles text).flatMap Spelled.points = Spelled.points text

instance : LawfulSpelled String where
  ofPoints?_points := ofPoints?_points
  points_ofString _ := rfl
  flatMap_singles text := by
    have hsingle (c : Char) : points (String.singleton c) = [.char c] := by simp [points]
    calc (text.toList.map String.singleton).flatMap points
      _ = text.toList.flatMap fun c => [.char c] := by simp only [List.flatMap_map, hsingle]
      _ = points text := List.map_eq_flatMap.symm

instance : LawfulSpelled (List CodePoint) where
  ofPoints?_points _ := rfl
  points_ofString _ := rfl
  flatMap_singles text := by simp [Spelled.singles, Spelled.points, List.flatMap_map]

/-- Strings are told apart as texts. -/
theorem ofString_inj {τ : Type} [Spelled τ] [LawfulSpelled τ] {a b : String} :
    (Spelled.ofString a : τ) = Spelled.ofString b ↔ a = b := by
  constructor
  · intro h
    have hpoints := congrArg Spelled.points h
    rw [LawfulSpelled.points_ofString, LawfulSpelled.points_ofString] at hpoints
    have hread := congrArg ofPoints? hpoints
    rw [ofPoints?_points, ofPoints?_points] at hread
    exact Option.some.inj hread
  · rintro rfl
    rfl

end Interpose.Text
