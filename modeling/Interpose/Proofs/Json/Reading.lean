import Interpose.Json.Printer
import Interpose.Json.Reader
import Mathlib.Data.List.Chain

/-!
# JSON texts are read back

The text of a value is read as that value, whatever follows it, in both styles. A text between
quotes is read by its UTF-16 units, two of which stand for a character outside of the basic plane.
So a text in which two surrogates stand as such a pair is not read back, but every other one is, in
particular every string. A number is read up to the first character that is no digit.
-/

namespace Interpose

namespace Text

/-- No surrogate that stands first in a pair is followed by one that stands second. -/
def Unpaired (points : List CodePoint) : Prop :=
  points.IsChain fun first second => ¬(first.isHigh = true ∧ second.isLow = true)

instance (points : List CodePoint) : Decidable (Unpaired points) :=
  inferInstanceAs (Decidable (points.IsChain _))

/-- There are no surrogates in a string. -/
theorem unpaired_points (text : String) : Unpaired (points text) := by
  refine (List.pairwise_of_forall_mem_list fun first hfirst second _ => ?_).isChain
  obtain ⟨c, -, rfl⟩ := List.mem_map.mp hfirst
  simp

end Text

namespace Json

open Reader Text

/-! ## Texts -/

/-- The UTF-16 units of a code point. -/
def unitsOf (point : CodePoint) : List Nat :=
  if point.toNat < 0x10000 then [point.toNat]
  else [0xD800 + (point.toNat - 0x10000) / 0x400, 0xDC00 + (point.toNat - 0x10000) % 0x400]

/-- A hexadecimal digit is read as its value. -/
theorem hexValue?_digitChar {digit : Nat} (h : digit < 16) :
    hexValue? (Nat.digitChar digit) = some digit := by
  have hall : ∀ digit < 16, hexValue? (Nat.digitChar digit) = some digit := by decide
  exact hall digit h

/-- The last hexadecimal digit of a number follows the digits of its sixteenth. -/
theorem hexDigits_succ (width n : Nat) :
    Text.hexDigits (width + 2) n =
      Text.hexDigits (width + 1) (n / 16) ++ [Nat.digitChar (n % 16)] := by
  rw [Text.hexDigits, Text.hexDigits]
  by_cases hn : n < 16
  · rw [Nat.toDigits_of_lt_base hn, Nat.div_eq_of_lt hn, Nat.toDigits_zero, Nat.mod_eq_of_lt hn]
    simp [List.replicate_succ']
  · rw [Nat.toDigits_of_base_le (by decide) (Nat.le_of_not_lt hn)]
    simp

/-- A number below 65536 is written in four hexadecimal digits. -/
theorem hexDigits_four {n : Nat} (h : n < 0x10000) :
    Text.hexDigits 4 n = [Nat.digitChar (n / 0x1000), Nat.digitChar (n / 0x100 % 16),
      Nat.digitChar (n / 0x10 % 16), Nat.digitChar (n % 16)] := by
  have hthird : n / 16 / 16 = n / 0x100 := by omega
  have hfirst : n / 0x100 / 16 = n / 0x1000 := by omega
  rw [hexDigits_succ, hexDigits_succ, hexDigits_succ, hthird, hfirst, Text.hexDigits,
    Nat.toDigits_of_lt_base (by omega)]
  rfl

/-- Four hexadecimal digits are read as the unit that they are written for. -/
theorem units_unitEscape {unit : Nat} (h : unit < 0x10000) (rest : List Char) :
    units (unitEscape unit ++ rest) =
      (units rest).map fun (more, rest) => (unit :: more, rest) := by
  have hread : unit? (Nat.digitChar (unit / 0x1000)) (Nat.digitChar (unit / 0x100 % 16))
      (Nat.digitChar (unit / 0x10 % 16)) (Nat.digitChar (unit % 16)) = some unit := by
    rw [unit?, hexValue?_digitChar (by omega), hexValue?_digitChar (by omega),
      hexValue?_digitChar (by omega), hexValue?_digitChar (by omega)]
    simp
    omega
  rw [unitEscape, hexDigits_four h]
  simp only [List.cons_append, List.nil_append]
  rw [units, hread]
  cases units rest <;> rfl

/-- A letter after a backslash is read as the unit that it is an escape of. -/
theorem units_letter {letter : Char} {unit : Nat} (h : escape? letter = some unit)
    (rest : List Char) :
    units ('\\' :: letter :: rest) =
      (units rest).map fun (more, rest) => (unit :: more, rest) := by
  have hletter : letter ≠ 'u' := by
    rintro rfl
    have hnone : escape? 'u' = none := by decide
    exact absurd (hnone.symm.trans h) (by simp)
  rw [units, h]
  · cases units rest <;> rfl
  · rintro a b c d tail rfl
    exact absurd rfl hletter

/-- A character of a text that is none of its signs is read as it stands. -/
theorem units_plain {c : Char} (hquote : c ≠ '"') (hslash : c ≠ '\\') (rest : List Char) :
    units (c :: rest) = (units rest).map fun (more, rest) => (c.toNat :: more, rest) := by
  rw [units]
  · cases units rest <;> rfl
  · exact hquote
  · rintro a b c d tail rfl
    exact absurd rfl hslash
  · rintro d tail rfl
    exact absurd rfl hslash

/-- Escaped characters are read as their units. -/
theorem units_escapeChar (c : Char) (rest : List Char) :
    units (escapeChar c ++ rest) =
      (units rest).map fun (more, rest) => (unitsOf (.char c) ++ more, rest) := by
  unfold escapeChar
  split
  · rename_i h
    obtain rfl | rfl := h
    · exact units_letter (by decide) rest
    · exact units_letter (by decide) rest
  split
  · subst_vars
    exact units_letter (by decide) rest
  split
  · subst_vars
    exact units_letter (by decide) rest
  split
  · subst_vars
    exact units_letter (by decide) rest
  split
  · subst_vars
    exact units_letter (by decide) rest
  split
  · subst_vars
    exact units_letter (by decide) rest
  split
  · rename_i hsign _ _ _ _ _ h
    have hplain : c.toNat < 0x10000 := by
      have hle : c.toNat ≤ 126 := h.2
      omega
    rw [List.singleton_append, unitsOf, CodePoint.toNat_char, if_pos hplain]
    exact units_plain (fun he => hsign (.inl he)) (fun he => hsign (.inr he)) rest
  split
  · rename_i h
    rw [units_unitEscape h, unitsOf, CodePoint.toNat_char, if_pos h]
    rfl
  · rename_i h
    have hvalid : c.toNat < 0xD800 ∨ 0xDFFF < c.toNat ∧ c.toNat < 0x110000 := c.valid
    rw [List.append_assoc, units_unitEscape (by omega), units_unitEscape (by omega), unitsOf,
      CodePoint.toNat_char, if_neg h]
    cases units rest <;> rfl

/-- Escaped code points are read as their units. -/
theorem units_escapePoint (point : CodePoint) (rest : List Char) :
    units (escapePoint point ++ rest) =
      (units rest).map fun (more, rest) => (unitsOf point ++ more, rest) := by
  cases point with
  | char c => exact units_escapeChar c rest
  | surrogate index =>
    have hunit : (CodePoint.surrogate index).toNat < 0x10000 := by
      rw [CodePoint.toNat_surrogate]
      omega
    rw [escapePoint, units_unitEscape hunit, unitsOf, if_pos hunit]
    rfl

/-- What is written between quotes is read as the units of its code points. -/
theorem units_flatMap (points : List CodePoint) (rest : List Char) :
    units (points.flatMap escapePoint ++ '"' :: rest) = some (points.flatMap unitsOf, rest) := by
  induction points with
  | nil => rw [List.flatMap_nil, List.nil_append, units, List.flatMap_nil]
  | cons point points ih =>
    rw [List.flatMap_cons, List.append_assoc, units_escapePoint, ih, List.flatMap_cons]
    rfl

/-- A unit that does not stand first in a pair stands for its code point. -/
theorem joinUnits_cons {unit : Nat} {units : List Nat}
    (h : ∀ low ∈ units.head?,
      ¬(0xD800 ≤ unit ∧ unit < 0xDC00 ∧ 0xDC00 ≤ low ∧ low < 0xE000)) :
    joinUnits (unit :: units) = CodePoint.ofNat unit :: joinUnits units := by
  cases units with
  | nil => rw [joinUnits, joinUnits]
  | cons low units => rw [joinUnits, if_neg (h low rfl)]

/-- The units of a text without pairs do not begin with the second unit of a pair when a surrogate
stands before them that is the first of one. -/
theorem not_pair_of_unpaired {point : CodePoint} {points : List CodePoint}
    (h : Unpaired (point :: points)) :
    ∀ low ∈ (points.flatMap unitsOf).head?,
      ¬(0xD800 ≤ point.toNat ∧ point.toNat < 0xDC00 ∧ 0xDC00 ≤ low ∧ low < 0xE000) := by
  intro low hlow hpair
  cases points with
  | nil => cases hlow
  | cons next points =>
    have hnext := (List.isChain_cons_cons.mp h).1
    rw [CodePoint.isHigh, CodePoint.isLow, decide_eq_true_eq, decide_eq_true_eq] at hnext
    rw [List.flatMap_cons, unitsOf] at hlow
    split at hlow
    · obtain rfl : next.toNat = low := by simpa using hlow
      omega
    · have hfirst : 0xD800 + (next.toNat - 0x10000) / 0x400 = low := by simpa using hlow
      have hbound := next.toNat_lt
      omega

/-- The units of a text without pairs are joined to its code points. -/
theorem joinUnits_flatMap {points : List CodePoint} (h : Unpaired points) :
    joinUnits (points.flatMap unitsOf) = points := by
  induction points with
  | nil => rw [List.flatMap_nil, joinUnits]
  | cons point points ih =>
    have hrest := ih h.tail
    rw [List.flatMap_cons, unitsOf]
    split
    · rw [List.singleton_append, joinUnits_cons (not_pair_of_unpaired h), hrest,
        CodePoint.ofNat_toNat]
    · rename_i hwide
      cases point with
      | char c =>
        have hcode : 0x10000 + (0xD800 + (c.toNat - 0x10000) / 0x400 - 0xD800) * 0x400 +
            (0xDC00 + (c.toNat - 0x10000) % 0x400 - 0xDC00) = c.toNat := by
          rw [CodePoint.toNat_char] at hwide
          omega
        have hbound := (CodePoint.char c).toNat_lt
        rw [CodePoint.toNat_char] at hbound
        rw [CodePoint.toNat_char, List.cons_append, List.singleton_append, joinUnits,
          if_pos (by omega), hrest, hcode, Char.ofNat_toNat]
      | surrogate index =>
        rw [CodePoint.toNat_surrogate] at hwide
        omega

section

variable {τ : Type} [Spelled τ] [LawfulSpelled τ]

/-- A text without pairs is read back from between its quotes. -/
theorem text?_textChars {text : τ} (h : Unpaired (Spelled.points text)) (rest : List Char) :
    text? ((Spelled.points text).flatMap escapePoint ++ '"' :: rest) = some (text, rest) := by
  rw [text?, units_flatMap]
  simp only [Option.bind_eq_bind, Option.bind_some, joinUnits_flatMap h,
    LawfulSpelled.ofPoints?_points]
  rfl

end

/-- A string is read back from between its quotes. -/
theorem text?_string (text : String) (rest : List Char) :
    text? ((Spelled.points text).flatMap escapePoint ++ '"' :: rest) = some (text, rest) :=
  text?_textChars (unpaired_points text) rest

/-! ## Numbers -/

/-- A text that does not go on with a digit. -/
def EndsNumeral (rest : List Char) : Prop := ∀ c ∈ rest.head?, c.isDigit = false

/-- A numeral ends where no digit follows. -/
theorem endsNumeral_cons {c : Char} {rest : List Char} (h : c.isDigit = false) :
    EndsNumeral (c :: rest) := by
  intro d hd
  obtain rfl : c = d := by simpa using hd
  exact h

/-- The digits of a number are read back. -/
theorem nat?_toDigits (n : Nat) {rest : List Char} (h : EndsNumeral rest) :
    nat? (Nat.toDigits 10 n ++ rest) = some (n, rest) := by
  have hdigits : ∀ c ∈ Nat.toDigits 10 n, c.isDigit = true := fun c hc =>
    Nat.isDigit_of_mem_toDigits (by decide) (by decide) hc
  have htake : rest.takeWhile Char.isDigit = [] ∧ rest.dropWhile Char.isDigit = rest := by
    cases rest with
    | nil => exact ⟨rfl, rfl⟩
    | cons c rest => simp [h c rfl]
  have hvalue : decimal (Nat.toDigits 10 n) = n := by
    have hread := @Nat.ofDigitChars_toDigits 10 n (by decide) (by decide)
    simpa [Nat.ofDigitChars, decimal, Nat.mul_comm] using hread
  unfold nat?
  rw [List.takeWhile_append_of_pos hdigits, List.dropWhile_append_of_pos hdigits, htake.1, htake.2,
    List.append_nil]
  split
  · rename_i hnil
    exact absurd hnil Nat.toDigits_ne_nil
  · rw [hvalue]

/-! ## Values -/

/-- A run of characters that may stand between the parts of a value. -/
def Gap (gap : List Char) : Prop := ∀ c ∈ gap, isGap c = true

theorem gap_nil : Gap [] := fun _ h => absurd h List.not_mem_nil

theorem gap_blank : Gap [' '] := by simp [Gap, isGap]

/-- A new line with its indentation is a gap. -/
theorem gap_newLine (level : Nat) : Gap (newLine level) := by
  intro c hc
  obtain rfl | hc := List.mem_cons.mp hc
  · rfl
  · rw [List.eq_of_mem_replicate hc]
    rfl

theorem Style.gap_opening (style : Style) (level : Nat) : Gap (style.opening level) := by
  cases style with
  | line => exact gap_nil
  | indented => exact gap_newLine level

theorem Style.gap_closing (style : Style) (level : Nat) : Gap (style.closing level) := by
  cases style with
  | line => exact gap_nil
  | indented => exact gap_newLine (level - 1)

/-- What stands between two items is a comma and a gap. -/
theorem Style.between_eq (style : Style) (level : Nat) :
    ∃ gap, Gap gap ∧ style.between level = ',' :: gap := by
  cases style with
  | line => exact ⟨[' '], gap_blank, rfl⟩
  | indented => exact ⟨newLine level, gap_newLine level, rfl⟩

/-- A gap at the front is skipped. -/
theorem skipGap_append {gap : List Char} (hgap : Gap gap) {c : Char} (hc : isGap c = false)
    (rest : List Char) : skipGap (gap ++ c :: rest) = c :: rest := by
  rw [skipGap, List.dropWhile_append_of_pos hgap, List.dropWhile_cons, hc]
  rfl

/-- The digits of a number begin with a digit. -/
theorem exists_toDigits_eq_cons (n : Nat) :
    ∃ digit digits, Nat.toDigits 10 n = digit :: digits ∧ digit.isDigit = true := by
  obtain ⟨digit, digits, h⟩ := List.exists_cons_of_ne_nil (@Nat.toDigits_ne_nil n 10)
  exact ⟨digit, digits, h, Nat.isDigit_of_mem_toDigits (b := 10) (n := n) (by decide) (by decide)
    (by rw [h]; exact List.mem_cons_self)⟩

/-- A digit is no gap and none of the signs of a value. -/
theorem signs_of_isDigit {c : Char} (h : c.isDigit = true) :
    isGap c = false ∧ c ≠ '"' ∧ c ≠ '[' ∧ c ≠ ']' ∧ c ≠ '\x7b' ∧ c ≠ '-' := by
  have hne (sign : Char) (hsign : sign.isDigit = false) : c ≠ sign := by
    rintro rfl
    exact absurd h (by simp [hsign])
  refine ⟨?_, hne _ rfl, hne _ rfl, hne _ rfl, hne _ rfl, hne _ rfl⟩
  simp [isGap, hne ' ' rfl, hne '\n' rfl, hne '\r' rfl, hne '\t' rfl]

/-! ## Unpaired values -/

mutual

/-- The texts in a value. -/
def texts {τ : Type} : Json τ → List τ
  | .str text => [text]
  | .arr items => itemTexts items
  | .obj members => memberTexts members
  | .null | .bool _ | .int _ => []

/-- The texts in some items. -/
def itemTexts {τ : Type} : List (Json τ) → List τ
  | [] => []
  | item :: items => texts item ++ itemTexts items

/-- The texts in some members, aside from their names. -/
def memberTexts {τ : Type} : List (String × Json τ) → List τ
  | [] => []
  | (_, value) :: members => texts value ++ memberTexts members

end

section

variable {τ : Type} [Spelled τ]

/-- No text in a value holds a pair of surrogates. -/
def Unpaired (value : Json τ) : Prop := ∀ text ∈ value.texts, Text.Unpaired (Spelled.points text)

instance (value : Json τ) : Decidable value.Unpaired :=
  List.decidableBAll (fun text => Text.Unpaired (Spelled.points text)) value.texts

/-- The texts in a value are strings. -/
theorem unpaired_of_strings (value : Json) : value.Unpaired := fun text _ => unpaired_points text

/-- The first character of a value is no gap and closes no list. -/
theorem exists_chars_eq_cons (style : Style) (level : Nat) (value : Json τ) :
    ∃ c cs, value.chars style level = c :: cs ∧ isGap c = false ∧ c ≠ ']' := by
  cases value with
  | null => exact ⟨_, _, rfl, rfl, by decide⟩
  | bool b => cases b <;> exact ⟨_, _, rfl, rfl, by decide⟩
  | int i =>
    cases i with
    | ofNat n =>
      obtain ⟨digit, digits, hcons, hdigit⟩ := exists_toDigits_eq_cons n
      obtain ⟨hgap, -, -, hclose, -⟩ := signs_of_isDigit hdigit
      exact ⟨digit, digits, by rw [chars, intChars, hcons], hgap, hclose⟩
    | negSucc n => exact ⟨_, _, by rw [chars, intChars], rfl, by decide⟩
  | str text => exact ⟨_, _, by rw [chars, textChars, List.cons_append], rfl, by decide⟩
  | arr items =>
    cases items with
    | nil => exact ⟨_, _, by rw [chars], rfl, by decide⟩
    | cons item items => exact ⟨_, _, by simp only [chars, List.cons_append]; rfl, rfl, by decide⟩
  | obj members =>
    cases members with
    | nil => exact ⟨_, _, by rw [chars], rfl, by decide⟩
    | cons member members =>
      exact ⟨_, _, by simp only [chars, List.cons_append]; rfl, rfl, by decide⟩

/-- An integer is read back. -/
theorem value?_intChars (i : Int) (fuel : Nat) {gap rest : List Char} (hgap : Gap gap)
    (hrest : EndsNumeral rest) :
    value? (fuel + 1) (gap ++ (intChars i ++ rest)) = some ((.int i : Json τ), rest) := by
  cases i with
  | ofNat n =>
    obtain ⟨digit, digits, hcons, hdigit⟩ := exists_toDigits_eq_cons n
    obtain ⟨hskip, hquote, hopen, -, hbrace, hminus⟩ := signs_of_isDigit hdigit
    have hread := nat?_toDigits n hrest
    rw [hcons, List.cons_append] at hread
    rw [intChars, hcons, List.cons_append, value?, skipGap_append hgap hskip]
    split
    · rename_i heq
      exact absurd (List.cons.inj heq).1 hquote
    · rename_i heq
      exact absurd (List.cons.inj heq).1 hopen
    · rename_i heq
      exact absurd (List.cons.inj heq).1 hbrace
    · rename_i heq
      exact absurd (List.cons.inj heq).1 hminus
    · rw [hread]
      rfl
  | negSucc n =>
    rw [intChars, List.cons_append, value?, skipGap_append hgap rfl]
    simp only [nat?_toDigits (n + 1) hrest, Option.map_some]
    rfl

/-- A text without pairs is read back. -/
theorem value?_textChars [LawfulSpelled τ] {text : τ} (h : Text.Unpaired (Spelled.points text))
    (fuel : Nat) {gap : List Char} (hgap : Gap gap) (rest : List Char) :
    value? (fuel + 1) (gap ++ (textChars text ++ rest)) = some (.str text, rest) := by
  rw [textChars, List.cons_append, List.cons_append, value?, skipGap_append hgap rfl]
  simp only [List.append_assoc, List.singleton_append, text?_textChars h, Option.map_some]

/-- A list whose bracket is followed by an item is read by its items. -/
theorem value?_open_items {gap opening : List Char} (hgap : Gap gap) (hopening : Gap opening)
    {c : Char} (hc : isGap c = false) (hclose : c ≠ ']') (fuel : Nat) (rest : List Char) :
    value? (fuel + 1) (gap ++ '[' :: (opening ++ c :: rest)) =
      (items? fuel (c :: rest)).map fun (items, rest) => ((.arr items : Json τ), rest) := by
  rw [value?, skipGap_append hgap rfl]
  simp only [skipGap_append hopening hc]
  split
  · rename_i heq
    exact absurd (List.cons.inj heq).1 hclose
  · rfl

/-- An object whose brace is followed by a member is read by its members. -/
theorem value?_open_members {gap opening : List Char} (hgap : Gap gap) (hopening : Gap opening)
    (fuel : Nat) (rest : List Char) :
    value? (fuel + 1) (gap ++ '\x7b' :: (opening ++ '"' :: rest)) =
      (members? fuel ('"' :: rest)).map
        fun (members, rest) => ((.obj members : Json τ), rest) := by
  rw [value?, skipGap_append hgap rfl]
  simp only [skipGap_append hopening (show isGap '"' = false from rfl)]
  rfl

/-- A member that a comma follows stands before the other members. -/
theorem members?_comma {gap cs after more : List Char} {value : Json τ} {fuel : Nat} (key : String)
    (hgap : Gap gap) (hread : value? fuel cs = some (value, after))
    (hskip : skipGap after = ',' :: more) :
    members? (fuel + 1) (gap ++ (textChars key ++ ':' :: cs)) =
      (members? fuel more).map fun (members, rest) => ((key, value) :: members, rest) := by
  have hcolon : skipGap (':' :: cs) = ':' :: cs := rfl
  rw [textChars, List.cons_append, List.cons_append, members?, skipGap_append hgap rfl]
  simp only [List.append_assoc, List.singleton_append, text?_string]
  simp [hcolon, hread, hskip]
  cases (members? fuel more : Option (List (String × Json τ) × List Char)) <;> rfl

/-- A member that the brace follows is the last one. -/
theorem members?_brace {gap cs after more : List Char} {value : Json τ} {fuel : Nat} (key : String)
    (hgap : Gap gap) (hread : value? fuel cs = some (value, after))
    (hskip : skipGap after = '\x7d' :: more) :
    members? (fuel + 1) (gap ++ (textChars key ++ ':' :: cs)) = some ([(key, value)], more) := by
  have hcolon : skipGap (':' :: cs) = ':' :: cs := rfl
  rw [textChars, List.cons_append, List.cons_append, members?, skipGap_append hgap rfl]
  simp only [List.append_assoc, List.singleton_append, text?_string]
  simp [hcolon, hread, hskip]

/-- A value is read back from its characters at any level, with any gap in front of them. -/
def ReadBack (style : Style) (value : Json τ) : Prop :=
  ∀ (level fuel : Nat) {gap rest : List Char}, Gap gap → EndsNumeral rest →
    (value.chars style level).length ≤ fuel →
      value? (fuel + 1) (gap ++ (value.chars style level ++ rest)) = some (value, rest)

/-- Nothing that follows an item or a member goes on with its number. -/
theorem Style.endsNumeral_closing (style : Style) (level : Nat) {sign : Char}
    (hsign : sign.isDigit = false) (rest : List Char) :
    EndsNumeral (style.closing level ++ sign :: rest) := by
  cases style with
  | line => exact endsNumeral_cons hsign
  | indented => exact endsNumeral_cons rfl

/-- A numeral ends where the items after it begin or the list ends. -/
theorem endsNumeral_itemsChars (style : Style) (level : Nat) (items : List (Json τ))
    (rest : List Char) :
    EndsNumeral (itemsChars style level items ++ (style.closing level ++ ']' :: rest)) := by
  cases items with
  | nil => exact style.endsNumeral_closing level rfl rest
  | cons item items =>
    obtain ⟨gap, -, hbetween⟩ := style.between_eq level
    simp only [itemsChars, hbetween, List.cons_append]
    exact endsNumeral_cons rfl

/-- A numeral ends where the members after it begin or the object ends. -/
theorem endsNumeral_membersChars (style : Style) (level : Nat) (members : List (String × Json τ))
    (rest : List Char) :
    EndsNumeral (membersChars style level members ++ (style.closing level ++ '\x7d' :: rest)) := by
  cases members with
  | nil => exact style.endsNumeral_closing level rfl rest
  | cons member members =>
    obtain ⟨gap, -, hbetween⟩ := style.between_eq level
    simp only [membersChars, hbetween, List.cons_append]
    exact endsNumeral_cons rfl

mutual

/-- Every value without pairs is read back. -/
theorem readBack [LawfulSpelled τ] (style : Style) :
    ∀ value : Json τ, value.Unpaired → ReadBack style value
  | .null, _ => by
    intro level fuel gap rest hgap _ _
    rw [chars, List.cons_append, value?, skipGap_append hgap rfl]
    rfl
  | .bool true, _ => by
    intro level fuel gap rest hgap _ _
    rw [chars, List.cons_append, value?, skipGap_append hgap rfl]
    rfl
  | .bool false, _ => by
    intro level fuel gap rest hgap _ _
    rw [chars, List.cons_append, value?, skipGap_append hgap rfl]
    rfl
  | .int i, _ => by
    intro level fuel gap rest hgap hrest _
    rw [chars]
    exact value?_intChars i fuel hgap hrest
  | .str text, h => by
    intro level fuel gap rest hgap _ _
    rw [chars]
    exact value?_textChars (h text (by simp [texts])) fuel hgap rest
  | .arr [], _ => by
    intro level fuel gap rest hgap _ _
    rw [chars, List.cons_append, value?, skipGap_append hgap rfl]
    rfl
  | .arr (item :: items), h => by
    intro level fuel gap rest hgap _ hfuel
    obtain ⟨hitem, hrest⟩ := List.forall_mem_append.mp h
    obtain ⟨c, cs, hcons, hskip, hclose⟩ := exists_chars_eq_cons style (level + 1) item
    simp only [chars, List.length_cons, List.length_append] at hfuel
    have hitems := items?_chars style items hrest (readBack style item hitem) level fuel []
      gap_nil rest (by omega)
    rw [List.nil_append, hcons, List.cons_append] at hitems
    simp only [chars, List.cons_append, List.append_assoc, hcons, List.nil_append]
    rw [value?_open_items hgap (style.gap_opening level) hskip hclose, hitems]
    rfl
  | .obj [], _ => by
    intro level fuel gap rest hgap _ _
    rw [chars, List.cons_append, value?, skipGap_append hgap rfl]
    rfl
  | .obj ((key, value) :: members), h => by
    intro level fuel gap rest hgap _ hfuel
    obtain ⟨hvalue, hrest⟩ := List.forall_mem_append.mp h
    simp only [chars, List.length_cons, List.length_append] at hfuel
    have hmembers := members?_chars style members hrest key (readBack style value hvalue) level
      fuel [] gap_nil rest (by omega)
    rw [List.nil_append, textChars] at hmembers
    simp only [chars, textChars, List.cons_append, List.append_assoc, List.nil_append]
      at hmembers ⊢
    rw [value?_open_members hgap (style.gap_opening level), hmembers]
    rfl

/-- The items of a list are read back up to its closing bracket. -/
theorem items?_chars [LawfulSpelled τ] (style : Style) : ∀ (items : List (Json τ)),
    (∀ text ∈ itemTexts items, Text.Unpaired (Spelled.points text)) → ∀ {item : Json τ},
    ReadBack style item → ∀ (level fuel : Nat) (gap : List Char), Gap gap →
    ∀ rest : List Char,
    (item.chars style (level + 1)).length + (itemsChars style level items).length + 2 ≤ fuel →
      items? fuel (gap ++ (item.chars style (level + 1) ++ (itemsChars style level items ++
        (style.closing level ++ ']' :: rest)))) = some (item :: items, rest)
  | items, _, item, hitem, level, 0, gap, hgap, rest, hfuel => by omega
  | items, _, item, hitem, level, 1, gap, hgap, rest, hfuel => by omega
  | [], _, item, hitem, level, fuel + 2, gap, hgap, rest, hfuel => by
    rw [items?, hitem (level + 1) fuel hgap (endsNumeral_itemsChars style level [] rest) (by omega)]
    have hskip := skipGap_append (style.gap_closing level) (c := ']') rfl rest
    simp [itemsChars, hskip]
  | next :: items, h, item, hitem, level, fuel + 2, gap, hgap, rest, hfuel => by
    obtain ⟨hnext, hmore⟩ := List.forall_mem_append.mp h
    obtain ⟨between, hbetween, heq⟩ := style.between_eq level
    have hskip (cs : List Char) : skipGap (',' :: cs) = ',' :: cs := rfl
    have hends := endsNumeral_itemsChars style level (next :: items) rest
    simp only [itemsChars, heq, List.length_cons, List.length_append, List.cons_append,
      List.append_assoc] at hfuel hends ⊢
    have hitems := items?_chars style items hmore (readBack style next hnext) level
      (fuel + 1) between hbetween rest (by omega)
    rw [items?, hitem (level + 1) fuel hgap hends (by omega)]
    simp [hskip, hitems]

/-- The members of an object are read back up to its closing brace. -/
theorem members?_chars [LawfulSpelled τ] (style : Style) :
    ∀ (members : List (String × Json τ)),
    (∀ text ∈ memberTexts members, Text.Unpaired (Spelled.points text)) → ∀ (key : String)
    {value : Json τ}, ReadBack style value → ∀ (level fuel : Nat) (gap : List Char), Gap gap →
    ∀ rest : List Char,
    (value.chars style (level + 1)).length + (membersChars style level members).length + 2 ≤ fuel →
      members? fuel (gap ++ (textChars key ++ ':' :: ' ' :: (value.chars style (level + 1) ++
        (membersChars style level members ++ (style.closing level ++ '\x7d' :: rest))))) =
          some ((key, value) :: members, rest)
  | members, _, key, value, hvalue, level, 0, gap, hgap, rest, hfuel => by omega
  | members, _, key, value, hvalue, level, 1, gap, hgap, rest, hfuel => by omega
  | [], _, key, value, hvalue, level, fuel + 2, gap, hgap, rest, hfuel => by
    have hread := hvalue (level + 1) fuel gap_blank
      (endsNumeral_membersChars style level ([] : List (String × Json τ)) rest) (by omega)
    exact members?_brace key hgap hread (skipGap_append (style.gap_closing level) rfl rest)
  | (next, other) :: members, h, key, value, hvalue, level, fuel + 2, gap, hgap, rest, hfuel => by
    obtain ⟨hother, hmore⟩ := List.forall_mem_append.mp h
    obtain ⟨between, hbetween, heq⟩ := style.between_eq level
    have hends := endsNumeral_membersChars style level ((next, other) :: members) rest
    simp only [membersChars, heq, List.length_cons, List.length_append, List.cons_append,
      List.append_assoc, List.nil_append] at hfuel hends ⊢
    have hread := hvalue (level + 1) fuel gap_blank hends (by omega)
    rw [List.singleton_append] at hread
    have hmembers := members?_chars style members hmore next (readBack style other hother) level
      (fuel + 1) between hbetween rest (by omega)
    rw [members?_comma key hgap hread rfl, hmembers]
    rfl

end

/-- A numeral ends where a gap begins. -/
theorem Gap.endsNumeral {gap : List Char} (h : Gap gap) : EndsNumeral gap := by
  intro c hc
  have hgap := h c (List.mem_of_mem_head? hc)
  simp only [isGap, Bool.or_eq_true, decide_eq_true_eq] at hgap
  rcases hgap with ((rfl | rfl) | rfl) | rfl <;> rfl

variable [LawfulSpelled τ]

/-- The text of a value without pairs is read as that value, whatever gap follows it. -/
theorem parse?_render_append (style : Style) {value : Json τ} (h : value.Unpaired)
    {gap : List Char} (hgap : Gap gap) :
    parse? (value.render style ++ String.ofList gap) = some value := by
  have hread := readBack style value h 1 (2 * (value.chars style 1 ++ gap).length + 1) gap_nil
    hgap.endsNumeral (by simp; omega)
  have hskip : skipGap gap = [] := by
    rw [skipGap, ← List.append_nil gap, List.dropWhile_append_of_pos hgap, List.dropWhile_nil]
  rw [List.nil_append] at hread
  rw [parse?, render, String.toList_append, String.toList_ofList, String.toList_ofList]
  simp only [hread, hskip, if_true]

/-- The text of a value without pairs is read as that value. -/
theorem parse?_render_of_unpaired (style : Style) {value : Json τ} (h : value.Unpaired) :
    parse? (value.render style) = some value := by
  simpa using parse?_render_append style h gap_nil

end

/-- The text of a value whose texts are strings is read as that value, in both styles. -/
theorem parse?_render (style : Style) (value : Json) :
    parse? (value.render style) = some value :=
  parse?_render_of_unpaired style (unpaired_of_strings value)

end Json

end Interpose
