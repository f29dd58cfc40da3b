import Interpose.Source.Lexeme

/-!
# What tokens are written with

The texts of names, quoted literals, numbers and bodies, said without reading them from the front of
a longer text. Reading such a text takes exactly it, when what follows cannot go on with it, and
everything that is read is such a text.
-/

namespace Interpose.Source

/-- Whether a text is a name. -/
def isName : List Char → Bool
  | [] => false
  | c :: cs => isNameStart c && cs.all isNameRest

/-- What is left of a quoted literal after its opening quote. -/
inductive QuotedRest (quote : Char) : List Char → Prop
  /-- The closing quote. -/
  | close : QuotedRest quote [quote]
  /-- A backslash and the character that it takes along. -/
  | escaped {c : Char} {cs : List Char} (hc : c ≠ '\n') (hrest : QuotedRest quote cs) :
      QuotedRest quote ('\\' :: c :: cs)
  /-- Any other character. -/
  | plain {c : Char} {cs : List Char} (hquote : c ≠ quote) (hline : c ≠ '\n')
      (hescape : c ≠ '\\') (hrest : QuotedRest quote cs) : QuotedRest quote (c :: cs)

/-- A quoted literal: it ends with the quote that it begins with. -/
def IsQuoted (cs : List Char) : Prop :=
  ∃ quote rest, (quote = '"' ∨ quote = '\'') ∧ QuotedRest quote rest ∧ cs = quote :: rest

/-- A sign or nothing. -/
def IsSign (cs : List Char) : Prop := cs = [] ∨ cs = ['+'] ∨ cs = ['-']

/-- A fraction or nothing: a point with any number of digits after it. -/
def IsFraction (cs : List Char) : Prop :=
  cs = [] ∨ ∃ digits, cs = '.' :: digits ∧ digits.all Char.isDigit

/-- An exponent or nothing: the letter, a sign or nothing, and digits. -/
def IsExponent (cs : List Char) : Prop :=
  cs = [] ∨ ∃ letter sign digits, (letter = 'e' ∨ letter = 'E') ∧ IsSign sign ∧ digits ≠ [] ∧
    digits.all Char.isDigit ∧ cs = letter :: sign ++ digits

/-- A number: a sign, digits, a fraction and an exponent, with a digit on one side of the point. -/
def IsNumber (cs : List Char) : Prop :=
  ∃ sign whole fraction exponent, IsSign sign ∧ whole.all Char.isDigit ∧ IsFraction fraction ∧
    IsExponent exponent ∧ (whole ≠ [] ∨ 1 < fraction.length) ∧
    cs = sign ++ whole ++ fraction ++ exponent

/-- A text that no name before it goes on with. -/
def EndsName (cs : List Char) : Prop := ∀ c ∈ cs.head?, isNameRest c = false

/-- A text that no number before it goes on with. -/
def EndsNumber (cs : List Char) : Prop := EndsName cs ∧ cs.head? ≠ some '.'

/-- A text that begins neither with a digit nor with the letter of an exponent. -/
def EndsDigits (cs : List Char) : Prop := ∀ c ∈ cs.head?, c.isDigit = false ∧ c ≠ 'e' ∧ c ≠ 'E'

/-! ## Stretches of a text -/

/-- The longest front of some class of a text is what stands before the first other character. -/
theorem takeWhile_append_of_head {p : Char → Bool} {cs rest : List Char} (h : cs.all p)
    (hrest : ∀ c ∈ rest.head?, p c = false) : (cs ++ rest).takeWhile p = cs := by
  rw [List.takeWhile_append_of_pos (by simpa using h)]
  cases rest with
  | nil => simp
  | cons c rest => simp [hrest c rfl]

/-- Dropping characters stops at what they are followed by. -/
theorem dropWhile_append_of_head {p : Char → Bool} {cs rest : List Char} (h : cs.all p)
    (hrest : ∀ c ∈ rest.head?, p c = false) : (cs ++ rest).dropWhile p = rest := by
  rw [List.dropWhile_append_of_pos (by simpa using h)]
  cases rest with
  | nil => simp
  | cons c rest => simp [hrest c rfl]

/-- What is left of a text after the longest front of some class begins with no such character. -/
theorem head_dropWhile {p : Char → Bool} (cs : List Char) :
    ∀ c ∈ (cs.dropWhile p).head?, p c = false := by
  intro c hc
  have hnot := List.head?_dropWhile_not p cs
  rw [hc] at hnot
  simpa using hnot

/-! ## Names -/

/-- Where a name ends, no digit follows. -/
theorem EndsName.isDigit {cs : List Char} (h : EndsName cs) :
    ∀ c ∈ cs.head?, c.isDigit = false := by
  intro c hc
  have hrest := h c hc
  simp only [isNameRest, Char.isAlphanum, Bool.or_eq_false_iff] at hrest
  exact hrest.1.2

/-- A name is munched whole where it ends. -/
theorem munchName_append {word rest : List Char} (h : isName word) (hrest : EndsName rest) :
    munchName (word ++ rest) = some (word, rest) := by
  cases word with
  | nil => simp [isName] at h
  | cons c cs =>
    obtain ⟨hc, hcs⟩ : isNameStart c = true ∧ cs.all isNameRest = true := by simpa [isName] using h
    rw [List.cons_append, munchName, if_pos hc, takeWhile_append_of_head hcs hrest,
      dropWhile_append_of_head hcs hrest]

/-- What is munched as a name is a name. -/
theorem isName_of_munchName {cs word rest : List Char} (h : munchName cs = some (word, rest)) :
    isName word := by
  cases cs with
  | nil => simp [munchName] at h
  | cons c cs =>
    simp only [munchName] at h
    split at h
    · rename_i hc
      simp only [Option.some.injEq, Prod.mk.injEq] at h
      rw [← h.1, isName, hc, List.all_takeWhile, Bool.and_self]
    · simp at h

/-- The name that is read is as long as it can be. -/
theorem endsName_of_munchName {cs word rest : List Char} (h : munchName cs = some (word, rest)) :
    EndsName rest := by
  cases cs with
  | nil => simp [munchName] at h
  | cons c cs =>
    simp only [munchName] at h
    split at h
    · simp only [Option.some.injEq, Prod.mk.injEq] at h
      rw [← h.2]
      exact head_dropWhile cs
    · simp at h

/-! ## Quoted literals -/

/-- A quoted text is munched up to its closing quote. -/
theorem munchQuoted_append {quote : Char} {read : List Char} (hquote : quote ≠ '\\')
    (h : QuotedRest quote read) (rest : List Char) :
    munchQuoted quote (read ++ rest) = some (read, rest) := by
  induction h with
  | close =>
    unfold munchQuoted
    split
    · simp at *
    · rename_i heq
      simp at heq
      exact absurd heq.1 hquote
    · rename_i heq
      obtain ⟨rfl, rfl⟩ : quote = _ ∧ rest = _ := by simpa using heq
      simp
  | @escaped c cs hc hrest ih => simp [munchQuoted, hc, ih]
  | @plain c cs hq hl he hrest ih =>
    rw [List.cons_append]
    unfold munchQuoted
    split
    · simp at *
    · rename_i heq
      exact absurd (List.cons.inj heq).1 he
    · rename_i heq
      obtain ⟨rfl, rfl⟩ := List.cons.inj heq
      simp [hq, hl, he, ih]

/-- What is munched behind a quote is the rest of a quoted text. -/
theorem quotedRest_of_munchQuoted {quote : Char} {cs read rest : List Char}
    (h : munchQuoted quote cs = some (read, rest)) : QuotedRest quote read := by
  fun_induction munchQuoted quote cs generalizing read with
  | case1 => simp at h
  | case2 => simp at h
  | case3 c cs hc ih =>
    simp only [Option.map_eq_some_iff, Prod.exists, Prod.mk.injEq] at h
    obtain ⟨r, s, hr, rfl, rfl⟩ := h
    exact .escaped hc (ih hr)
  | case4 cs =>
    simp only [Option.some.injEq, Prod.mk.injEq] at h
    obtain ⟨rfl, rfl⟩ := h
    exact .close
  | case5 => simp at h
  | case6 c cs _ hq hc ih =>
    simp only [Option.map_eq_some_iff, Prod.exists, Prod.mk.injEq] at h
    obtain ⟨r, s, hr, rfl, rfl⟩ := h
    exact .plain hq (fun hl => hc (.inl hl)) (fun he => hc (.inr he)) (ih hr)

/-! ## Numbers -/

/-- Where a name ends, digits end. -/
theorem EndsName.endsDigits {cs : List Char} (h : EndsName cs) : EndsDigits cs := by
  intro c hc
  refine ⟨h.isDigit c hc, ?_, ?_⟩
  · rintro rfl
    exact absurd (h 'e' hc) (by decide)
  · rintro rfl
    exact absurd (h 'E' hc) (by decide)

/-- A sign is munched where no other sign follows. -/
private theorem munchSign_append_of_head {sign cs : List Char} (h : IsSign sign)
    (hhead : ∀ c ∈ cs.head?, c ≠ '+' ∧ c ≠ '-') : munchSign (sign ++ cs) = (sign, cs) := by
  rcases h with rfl | rfl | rfl
  · rw [List.nil_append]
    unfold munchSign
    split
    · exact absurd rfl (hhead '+' rfl).1
    · exact absurd rfl (hhead '-' rfl).2
    · rfl
  · rfl
  · rfl

/-- A digit is no sign. -/
private theorem ne_sign_of_isDigit {c : Char} (h : c.isDigit) : c ≠ '+' ∧ c ≠ '-' := by
  constructor
  · rintro rfl
    exact absurd h (by decide)
  · rintro rfl
    exact absurd h (by decide)

/-- The digits of a text that begins with one begin with no sign. -/
private theorem ne_sign_of_digits {digits rest : List Char} (hne : digits ≠ [])
    (hdigits : digits.all Char.isDigit) : ∀ c ∈ (digits ++ rest).head?, c ≠ '+' ∧ c ≠ '-' := by
  intro c hc
  obtain ⟨d, ds, rfl⟩ := List.exists_cons_of_ne_nil hne
  obtain rfl : d = c := by simpa using hc
  exact ne_sign_of_isDigit (by simp_all)

/-- A fraction is munched where its digits end. -/
private theorem munchFraction_append_of_head {fraction cs : List Char} (h : IsFraction fraction)
    (hdigit : ∀ c ∈ cs.head?, c.isDigit = false) (hpoint : fraction = [] → cs.head? ≠ some '.') :
    munchFraction (fraction ++ cs) = (fraction, cs) := by
  rcases h with rfl | ⟨digits, rfl, hdigits⟩
  · rw [List.nil_append]
    unfold munchFraction
    split
    · exact absurd rfl (hpoint rfl)
    · rfl
  · rw [List.cons_append, munchFraction, takeWhile_append_of_head hdigits hdigit,
      dropWhile_append_of_head hdigits hdigit]

/-- An exponent is munched where its digits end. -/
private theorem munchExponent_append_of_ends {exponent rest : List Char} (h : IsExponent exponent)
    (hrest : EndsDigits rest) : munchExponent (exponent ++ rest) = (exponent, rest) := by
  have hdigit : ∀ c ∈ rest.head?, c.isDigit = false := fun c hc => (hrest c hc).1
  rcases h with rfl | ⟨letter, sign, digits, hletter, hsign, hne, hdigits, rfl⟩
  · cases rest with
    | nil => rfl
    | cons c rest =>
      have hc : ¬ (c = 'e' ∨ c = 'E') := not_or.mpr (hrest c rfl).2
      rw [List.nil_append, munchExponent, if_neg fun h => hc h.1]
  · have hs : munchSign (sign ++ digits ++ rest) = (sign, digits ++ rest) := by
      rw [List.append_assoc]
      exact munchSign_append_of_head hsign (ne_sign_of_digits hne hdigits)
    have hd : (digits ++ rest).takeWhile Char.isDigit = digits :=
      takeWhile_append_of_head hdigits hdigit
    have hr : (digits ++ rest).dropWhile Char.isDigit = rest :=
      dropWhile_append_of_head hdigits hdigit
    have hcons : letter :: sign ++ digits ++ rest = letter :: (sign ++ digits ++ rest) := rfl
    rw [hcons, munchExponent, hs, hd, hr, if_pos ⟨hletter, hne⟩]

/-- What begins with an exponent or with the end of digits begins with no digit. -/
private theorem isDigit_head_exponent {exponent rest : List Char} (h : IsExponent exponent)
    (hrest : EndsDigits rest) : ∀ c ∈ (exponent ++ rest).head?, c.isDigit = false := by
  intro c hc
  rcases h with rfl | ⟨letter, sign, digits, hletter, _, _, _, rfl⟩
  · exact (hrest c hc).1
  · obtain rfl : letter = c := by simpa using hc
    rcases hletter with rfl | rfl <;> decide

/-- An exponent begins with no point, so only where neither a fraction nor an exponent stands can a
point be what follows the number. -/
private theorem head_exponent_ne_point {exponent rest : List Char} (h : IsExponent exponent)
    (hpoint : exponent = [] → rest.head? ≠ some '.') : (exponent ++ rest).head? ≠ some '.' := by
  rcases h with rfl | ⟨letter, sign, digits, hletter, _, _, _, rfl⟩
  · exact hpoint rfl
  · rcases hletter with rfl | rfl <;> simp

/-- The parts of a number are read when what follows goes on with none of them. -/
theorem munchNumber_parts_append {sign whole fraction exponent rest : List Char}
    (hsign : IsSign sign) (hwhole : whole.all Char.isDigit) (hfraction : IsFraction fraction)
    (hexponent : IsExponent exponent) (hone : whole ≠ [] ∨ 1 < fraction.length)
    (hrest : EndsDigits rest) (hpoint : fraction = [] → exponent = [] → rest.head? ≠ some '.') :
    munchNumber (sign ++ whole ++ fraction ++ exponent ++ rest) =
      some (sign ++ whole ++ fraction ++ exponent, rest) := by
  have hends := isDigit_head_exponent hexponent hrest
  -- The digits before the point end there: a point, an exponent or the rest follows.
  have hdigit : ∀ c ∈ (fraction ++ (exponent ++ rest)).head?, c.isDigit = false := by
    intro c hc
    rcases hfraction with rfl | ⟨digits, rfl, _⟩
    · exact hends c hc
    · obtain rfl : '.' = c := by simpa using hc
      decide
  have hfirst : ∀ c ∈ (whole ++ (fraction ++ (exponent ++ rest))).head?, c ≠ '+' ∧ c ≠ '-' := by
    by_cases hw : whole = []
    · subst hw
      rcases hfraction with rfl | ⟨digits, rfl, _⟩
      · simp at hone
      · intro c hc
        obtain rfl : '.' = c := by simpa using hc
        decide
    · exact ne_sign_of_digits hw hwhole
  have hs : munchSign (sign ++ whole ++ fraction ++ exponent ++ rest) =
      (sign, whole ++ (fraction ++ (exponent ++ rest))) := by
    simp only [List.append_assoc]
    exact munchSign_append_of_head hsign hfirst
  have hw : (whole ++ (fraction ++ (exponent ++ rest))).takeWhile Char.isDigit = whole :=
    takeWhile_append_of_head hwhole hdigit
  have hd : (whole ++ (fraction ++ (exponent ++ rest))).dropWhile Char.isDigit =
      fraction ++ (exponent ++ rest) := dropWhile_append_of_head hwhole hdigit
  have hf := munchFraction_append_of_head hfraction hends
    (fun hnil => head_exponent_ne_point hexponent (hpoint hnil))
  have he := munchExponent_append_of_ends hexponent hrest
  have hsome : ¬ (whole = [] ∧ fraction.length ≤ 1) := by
    rintro ⟨hnil, hlength⟩
    rcases hone with hne | hlong
    · exact hne hnil
    · omega
  simp only [munchNumber, hs, hw, hd, hf, he]
  rw [if_neg hsome]

/-- A number is munched whole where it ends. -/
theorem munchNumber_append {cs rest : List Char} (h : IsNumber cs) (hrest : EndsNumber rest) :
    munchNumber (cs ++ rest) = some (cs, rest) := by
  obtain ⟨sign, whole, fraction, exponent, hsign, hwhole, hfraction, hexponent, hone, rfl⟩ := h
  exact munchNumber_parts_append hsign hwhole hfraction hexponent hone hrest.1.endsDigits
    fun _ _ => hrest.2

/-- What is munched as a sign is a sign. -/
private theorem isSign_munchSign (cs : List Char) : IsSign (munchSign cs).1 := by
  unfold munchSign
  split
  · exact .inr (.inl rfl)
  · exact .inr (.inr rfl)
  · exact .inl rfl

/-- What is munched as a fraction is a fraction. -/
private theorem isFraction_munchFraction (cs : List Char) : IsFraction (munchFraction cs).1 := by
  unfold munchFraction
  split
  · exact .inr ⟨_, rfl, List.all_takeWhile⟩
  · exact .inl rfl

/-- What is munched as an exponent is an exponent. -/
private theorem isExponent_munchExponent (cs : List Char) : IsExponent (munchExponent cs).1 := by
  cases cs with
  | nil => exact .inl rfl
  | cons c cs =>
    simp only [munchExponent]
    split
    · rename_i h
      exact .inr ⟨c, _, _, h.1, isSign_munchSign cs, h.2, List.all_takeWhile, rfl⟩
    · exact .inl rfl

/-- No digit follows an exponent. -/
private theorem head_munchExponent {cs : List Char} (hcs : ∀ c ∈ cs.head?, c.isDigit = false) :
    ∀ c ∈ (munchExponent cs).2.head?, c.isDigit = false := by
  cases cs with
  | nil => simp [munchExponent]
  | cons c cs =>
    simp only [munchExponent]
    split
    · exact head_dropWhile _
    · exact hcs

/-- The number that is read is as long as it can be: no digit follows it, and a point follows only
where a fraction or an exponent stands. -/
theorem exists_parts_of_munchNumber {cs read rest : List Char}
    (h : munchNumber cs = some (read, rest)) : ∃ sign whole fraction exponent, IsSign sign ∧
      whole.all Char.isDigit ∧ IsFraction fraction ∧ IsExponent exponent ∧
      (whole ≠ [] ∨ 1 < fraction.length) ∧ read = sign ++ whole ++ fraction ++ exponent ∧
      (∀ c ∈ rest.head?, c.isDigit = false) ∧
      (fraction = [] → exponent = [] → rest.head? ≠ some '.') := by
  simp only [munchNumber] at h
  split at h
  · simp at h
  · rename_i hone
    simp only [Option.some.injEq, Prod.mk.injEq] at h
    obtain ⟨hread, rfl⟩ := h
    have hafter := head_dropWhile (p := Char.isDigit) (munchSign cs).2
    refine ⟨_, _, _, _, isSign_munchSign cs, List.all_takeWhile, isFraction_munchFraction _,
      isExponent_munchExponent _, ?_, hread.symm, ?_, ?_⟩
    · by_cases hw : (munchSign cs).2.takeWhile Char.isDigit = []
      · exact .inr (Nat.not_le.mp fun hlength => hone ⟨hw, hlength⟩)
      · exact .inl hw
    · refine head_munchExponent ?_
      unfold munchFraction
      split
      · exact head_dropWhile _
      · exact hafter
    · intro hfraction hexponent
      have hleft := munchExponent_append (munchFraction ((munchSign cs).2.dropWhile Char.isDigit)).2
      rw [hexponent, List.nil_append] at hleft
      rw [hleft]
      unfold munchFraction at hfraction ⊢
      split at hfraction
      · simp at hfraction
      · rename_i hpoint
        intro hhead
        obtain ⟨tail, htail⟩ := List.head?_eq_some_iff.mp hhead
        exact hpoint tail htail

/-- What is munched as a number is a number. -/
theorem isNumber_of_munchNumber {cs read rest : List Char}
    (h : munchNumber cs = some (read, rest)) : IsNumber read := by
  obtain ⟨sign, whole, fraction, exponent, hsign, hwhole, hfraction, hexponent, hone, hread, _⟩ :=
    exists_parts_of_munchNumber h
  exact ⟨sign, whole, fraction, exponent, hsign, hwhole, hfraction, hexponent, hone, hread⟩

/-- A digit begins no name. -/
theorem isNameStart_of_isDigit {c : Char} (h : c.isDigit) : isNameStart c = false := by
  have hzero : '0'.val.toNat = 48 := rfl
  have hnine : '9'.val.toNat = 57 := rfl
  have hupper : 'A'.val.toNat = 65 := rfl
  have hlower : 'a'.val.toNat = 97 := rfl
  simp only [Char.isDigit, Bool.and_eq_true, decide_eq_true_eq, UInt32.le_iff_toNat_le, ge_iff_le]
    at h
  have halpha : c.isAlpha = (decide (c.val ≥ 'A'.val ∧ c.val ≤ 'Z'.val) ||
      (decide (c.val ≥ 'a'.val) && decide (c.val ≤ 'z'.val))) := rfl
  simp only [isNameStart, halpha, Bool.or_eq_false_iff, Bool.and_eq_false_iff,
    decide_eq_false_iff_not, UInt32.le_iff_toNat_le, ge_iff_le]
  refine ⟨⟨?_, ?_⟩, ?_⟩
  · omega
  · omega
  · rintro rfl
    exact absurd h (by decide)

/-- A number begins with none of the characters that other tokens in its place begin with. -/
theorem IsNumber.exists_cons {cs : List Char} (h : IsNumber cs) :
    ∃ c tail, cs = c :: tail ∧ isNameStart c = false ∧ c ≠ ')' ∧ c ≠ '"' ∧ c ≠ '\'' := by
  obtain ⟨sign, whole, fraction, exponent, hsign, hwhole, hfraction, _, hone, rfl⟩ := h
  rcases hsign with rfl | rfl | rfl
  · cases whole with
    | nil =>
      rcases hfraction with rfl | ⟨digits, rfl, _⟩
      · simp at hone
      · exact ⟨'.', digits ++ exponent, rfl, by decide⟩
    | cons d ds =>
      have hd : d.isDigit := by simp_all
      refine ⟨d, ds ++ fraction ++ exponent, by simp, isNameStart_of_isDigit hd, ?_, ?_, ?_⟩
      · rintro rfl
        exact absurd hd (by decide)
      · rintro rfl
        exact absurd hd (by decide)
      · rintro rfl
        exact absurd hd (by decide)
  · exact ⟨'+', whole ++ fraction ++ exponent, by simp, by decide⟩
  · exact ⟨'-', whole ++ fraction ++ exponent, by simp, by decide⟩

/-! ## Bodies -/

/-- A text without a fence is read up to the fence on the next line. -/
theorem untilFence_append {cs : List Char} (h : ¬ fence <:+: cs) (rest : List Char) :
    untilFence (cs ++ '\n' :: fence ++ rest) = some (cs ++ ['\n'], rest) := by
  induction cs with
  | nil => rfl
  | cons c cs ih =>
    have hcs : ¬ fence <:+: cs := fun hin => h (hin.trans (List.suffix_cons c cs).isInfix)
    simp only [List.cons_append]
    unfold untilFence
    split
    · simp at *
    · rename_i tail heq
      -- A fence at the front would have to lie before the line end.
      exfalso
      match cs, heq with
      | [], heq => simp at heq
      | [_], heq => simp at heq
      | a :: b :: cs, heq =>
        obtain ⟨rfl, rfl, rfl, _⟩ : c = '\x60' ∧ a = '\x60' ∧ b = '\x60' ∧ _ := by simpa using heq
        exact h ⟨[], cs, rfl⟩
    · rename_i heq
      obtain ⟨rfl, rfl⟩ := List.cons.inj heq
      have ih := ih hcs
      rw [List.append_assoc, List.cons_append] at ih
      rw [List.append_assoc, List.cons_append, ih]
      rfl

/-- What is read up to a fence holds none. -/
theorem fence_not_infix_of_untilFence {cs read rest : List Char}
    (h : untilFence cs = some (read, rest)) : ¬ fence <:+: read := by
  fun_induction untilFence cs generalizing read with
  | case1 => simp at h
  | case2 cs =>
    obtain ⟨rfl, _⟩ : [] = read ∧ _ := by simpa using h
    simp [fence]
  | case3 c cs hne ih =>
    simp only [Option.map_eq_some_iff, Prod.exists, Prod.mk.injEq] at h
    obtain ⟨r, s, hr, rfl, rfl⟩ := h
    rw [List.infix_cons_iff]
    rintro (hfront | hinner)
    · obtain ⟨tail, htail⟩ := hfront
      have hcs := eq_append_of_untilFence hr
      obtain ⟨rfl, rfl⟩ : '\x60' = c ∧ '\x60' :: '\x60' :: tail = r := by simpa [fence] using htail
      exact hne (tail ++ fence ++ s) rfl (by simp [hcs])
    · exact ih hr hinner

end Interpose.Source
