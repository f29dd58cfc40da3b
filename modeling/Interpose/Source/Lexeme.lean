import Interpose.Source.Token

/-!
# Lexemes

`munch` reads the token at the front of a text, as long as it can be, among those that the mode
admits. `lexeme_of_munch` states that it takes exactly the token's own text away, so nothing is
lost and every token shortens the text.
-/

namespace Interpose.Source

/-- Whether a name can begin with a character. -/
def isNameStart (c : Char) : Bool := c.isAlpha || c = '_'

/-- Whether a name can go on with a character. -/
def isNameRest (c : Char) : Bool := c.isAlphanum || c = '_'

/-- What follows a word that a text begins with. -/
def dropWord : List Char → List Char → Option (List Char)
  | [], cs => some cs
  | w :: ws, c :: cs => if w = c then dropWord ws cs else none
  | _ :: _, [] => none

/-- A word that is dropped stood at the front. -/
theorem eq_append_of_dropWord {w cs rest : List Char} (h : dropWord w cs = some rest) :
    cs = w ++ rest := by
  fun_induction dropWord w cs with
  | case1 cs => simpa using h
  | case2 w ws cs ih => simp [ih h]
  | case3 => simp at h
  | case4 => simp at h

/-- The name at the front of a text. -/
def munchName : List Char → Option (List Char × List Char)
  | [] => none
  | c :: cs =>
    if isNameStart c then some (c :: cs.takeWhile isNameRest, cs.dropWhile isNameRest) else none

/-- A name that is munched stood at the front. -/
theorem eq_append_of_munchName {cs word rest : List Char} (h : munchName cs = some (word, rest)) :
    cs = word ++ rest := by
  cases cs with
  | nil => simp [munchName] at h
  | cons c cs =>
    simp only [munchName] at h
    split at h
    · simp only [Option.some.injEq, Prod.mk.injEq] at h
      rw [← h.1, ← h.2, List.cons_append, List.takeWhile_append_dropWhile]
    · simp at h

/-- The rest of a quoted literal after its opening quote, up to and with its closing one. A
backslash takes the character after it along; a newline ends the attempt. -/
def munchQuoted (quote : Char) : List Char → Option (List Char × List Char)
  | [] => none
  | '\\' :: c :: cs =>
    if c = '\n' then none
    else (munchQuoted quote cs).map fun (read, rest) => ('\\' :: c :: read, rest)
  | c :: cs =>
    if c = quote then some ([c], cs)
    else if c = '\n' ∨ c = '\\' then none
    else (munchQuoted quote cs).map fun (read, rest) => (c :: read, rest)

/-- A quoted text that is munched stood at the front. -/
theorem eq_append_of_munchQuoted {quote : Char} {cs read rest : List Char}
    (h : munchQuoted quote cs = some (read, rest)) : cs = read ++ rest := by
  fun_induction munchQuoted quote cs generalizing read with
  | case1 => simp at h
  | case2 => simp at h
  | case3 c cs _ ih =>
    simp only [Option.map_eq_some_iff, Prod.exists, Prod.mk.injEq] at h
    obtain ⟨r, s, hr, rfl, rfl⟩ := h
    simp [ih hr]
  | case4 cs =>
    simp only [Option.some.injEq, Prod.mk.injEq] at h
    obtain ⟨rfl, rfl⟩ := h
    rfl
  | case5 => simp at h
  | case6 c cs _ _ _ ih =>
    simp only [Option.map_eq_some_iff, Prod.exists, Prod.mk.injEq] at h
    obtain ⟨r, s, hr, rfl, rfl⟩ := h
    simp [ih hr]

/-- The sign at the front of a text, if there is one. -/
def munchSign : List Char → List Char × List Char
  | '+' :: cs => (['+'], cs)
  | '-' :: cs => (['-'], cs)
  | cs => ([], cs)

theorem munchSign_append (cs : List Char) : (munchSign cs).1 ++ (munchSign cs).2 = cs := by
  unfold munchSign
  split <;> rfl

/-- The exponent at the front of a text, or nothing when no digit follows its sign. -/
def munchExponent : List Char → List Char × List Char
  | [] => ([], [])
  | c :: cs =>
    if (c = 'e' ∨ c = 'E') ∧ (munchSign cs).2.takeWhile Char.isDigit ≠ [] then
      (c :: (munchSign cs).1 ++ (munchSign cs).2.takeWhile Char.isDigit,
        (munchSign cs).2.dropWhile Char.isDigit)
    else ([], c :: cs)

theorem munchExponent_append (cs : List Char) :
    (munchExponent cs).1 ++ (munchExponent cs).2 = cs := by
  cases cs with
  | nil => rfl
  | cons c cs =>
    simp only [munchExponent]
    split
    · simp [munchSign_append]
    · rfl

/-- The fraction at the front of a text: a point and the digits after it. -/
def munchFraction : List Char → List Char × List Char
  | '.' :: cs => ('.' :: cs.takeWhile Char.isDigit, cs.dropWhile Char.isDigit)
  | cs => ([], cs)

theorem munchFraction_append (cs : List Char) :
    (munchFraction cs).1 ++ (munchFraction cs).2 = cs := by
  unfold munchFraction
  split <;> simp

/-- The number at the front of a text: a sign, digits, a fraction and an exponent, of which only
digits on one side of the point are required. -/
def munchNumber (cs : List Char) : Option (List Char × List Char) :=
  let sign := munchSign cs
  let whole := sign.2.takeWhile Char.isDigit
  let fraction := munchFraction (sign.2.dropWhile Char.isDigit)
  let exponent := munchExponent fraction.2
  if whole = [] ∧ fraction.1.length ≤ 1 then none
  else some (sign.1 ++ whole ++ fraction.1 ++ exponent.1, exponent.2)

/-- A number that is munched stood at the front. -/
theorem eq_append_of_munchNumber {cs read rest : List Char}
    (h : munchNumber cs = some (read, rest)) : cs = read ++ rest := by
  simp only [munchNumber] at h
  split at h
  · simp at h
  · simp only [Option.some.injEq, Prod.mk.injEq] at h
    obtain ⟨rfl, rfl⟩ := h
    simp only [List.append_assoc]
    rw [munchExponent_append, munchFraction_append, List.takeWhile_append_dropWhile,
      munchSign_append]

/-- The text before the next fence and the text after it. -/
def untilFence : List Char → Option (List Char × List Char)
  | [] => none
  | '\x60' :: '\x60' :: '\x60' :: rest => some ([], rest)
  | c :: cs => (untilFence cs).map fun (read, rest) => (c :: read, rest)

/-- The text before a fence, the fence and what follows it are the whole text. -/
theorem eq_append_of_untilFence {cs read rest : List Char}
    (h : untilFence cs = some (read, rest)) : cs = read ++ fence ++ rest := by
  fun_induction untilFence cs generalizing read with
  | case1 => simp at h
  | case2 cs => simp_all [fence]
  | case3 c cs _ ih =>
    simp only [Option.map_eq_some_iff, Prod.exists, Prod.mk.injEq] at h
    obtain ⟨r, s, hr, rfl, rfl⟩ := h
    simp [ih hr]

/-- The first keyword of a list that a text begins with. -/
def munchKeyword : List Keyword → List Char → Option (Token × List Char)
  | [], _ => none
  | k :: ks, cs =>
    match dropWord k.spelling cs with
    | some rest => some (.word k, rest)
    | none => munchKeyword ks cs

/-- A keyword, a mark or a body at the front of a text. A keyword needs no blank after it. -/
def munchOperator : List Char → Option (Token × List Char)
  | '.' :: cs => some (.mark .dot, cs)
  | ',' :: cs => some (.mark .comma, cs)
  | ':' :: cs => some (.mark .colon, cs)
  | '@' :: cs => some (.mark .at, cs)
  | '-' :: '>' :: cs => some (.mark .arrow, cs)
  | '(' :: cs => some (.mark .openParen, cs)
  | ')' :: cs => some (.mark .closeParen, cs)
  | '[' :: cs => some (.mark .openBracket, cs)
  | ']' :: cs => some (.mark .closeBracket, cs)
  | '\x7b' :: cs => some (.mark .openBrace, cs)
  | '\x7d' :: cs => some (.mark .closeBrace, cs)
  | '\x60' :: '\x60' :: '\x60' :: cs =>
    (untilFence cs).map fun (read, rest) => (.body (String.ofList read), rest)
  | cs => munchKeyword Keyword.all cs

/-- A name, a literal or a closing parenthesis at the front of a text. -/
def munchOperand : List Char → Option (Token × List Char)
  | ')' :: cs => some (.mark .closeParen, cs)
  | '"' :: cs =>
    (munchQuoted '"' cs).map fun (read, rest) => (.quoted (String.ofList ('"' :: read)), rest)
  | '\'' :: cs =>
    (munchQuoted '\'' cs).map fun (read, rest) => (.quoted (String.ofList ('\'' :: read)), rest)
  | cs =>
    match munchName cs with
    | some (word, rest) => some (.name (String.ofList word), rest)
    | none => (munchNumber cs).map fun (read, rest) => (.number (String.ofList read), rest)

/-- A name at the front of a text, unless it is the keyword that ends a module's dots. -/
def munchModule (cs : List Char) : Option (Token × List Char) :=
  (munchName cs).map fun (word, rest) =>
    if word = Keyword.importWord.spelling then (.word .importWord, rest)
    else (.name (String.ofList word), rest)

/-- Dots or a name at the front of a text. -/
def munchSource : List Char → Option (Token × List Char)
  | '.' :: cs =>
    some (.dots (('.' :: cs).takeWhile (· = '.')).length, ('.' :: cs).dropWhile (· = '.'))
  | cs => (munchName cs).map fun (word, rest) => (.name (String.ofList word), rest)

/-- The token at the front of a text and the text after it. -/
def munch : Mode → List Char → Option (Token × List Char)
  | .operator => munchOperator
  | .operand => munchOperand
  | .source => munchSource
  | .sourceRest => munchModule

/-- The lexeme of a keyword stood at the front. -/
private theorem eq_append_of_munchKeyword {ks : List Keyword} {cs rest : List Char} {t : Token}
    (h : munchKeyword ks cs = some (t, rest)) : cs = t.lexeme ++ rest := by
  fun_induction munchKeyword ks cs with
  | case1 => simp at h
  | case2 k ks cs s hs =>
    simp only [Option.some.injEq, Prod.mk.injEq] at h
    obtain ⟨rfl, rfl⟩ := h
    exact eq_append_of_dropWord hs
  | case3 k ks cs _ ih => exact ih h

/-- The lexeme of an operator stood at the front. -/
private theorem eq_append_of_munchOperator {cs rest : List Char} {t : Token}
    (h : munchOperator cs = some (t, rest)) : cs = t.lexeme ++ rest := by
  unfold munchOperator at h
  split at h
  case h_12 cs =>
    simp only [Option.map_eq_some_iff, Prod.exists, Prod.mk.injEq] at h
    obtain ⟨r, s, hr, rfl, rfl⟩ := h
    simp [Token.lexeme, fence, eq_append_of_untilFence hr]
  case h_13 => exact eq_append_of_munchKeyword h
  all_goals
    simp only [Option.some.injEq, Prod.mk.injEq] at h
    obtain ⟨rfl, rfl⟩ := h
    rfl

/-- The lexeme of an operand stood at the front. -/
private theorem eq_append_of_munchOperand {cs rest : List Char} {t : Token}
    (h : munchOperand cs = some (t, rest)) : cs = t.lexeme ++ rest := by
  unfold munchOperand at h
  split at h
  case h_1 cs =>
    simp only [Option.some.injEq, Prod.mk.injEq] at h
    obtain ⟨rfl, rfl⟩ := h
    rfl
  case h_2 cs =>
    simp only [Option.map_eq_some_iff, Prod.exists, Prod.mk.injEq] at h
    obtain ⟨r, s, hr, rfl, rfl⟩ := h
    simp [Token.lexeme, ← eq_append_of_munchQuoted hr]
  case h_3 cs =>
    simp only [Option.map_eq_some_iff, Prod.exists, Prod.mk.injEq] at h
    obtain ⟨r, s, hr, rfl, rfl⟩ := h
    simp [Token.lexeme, ← eq_append_of_munchQuoted hr]
  case h_4 =>
    split at h
    · rename_i hn
      simp only [Option.some.injEq, Prod.mk.injEq] at h
      obtain ⟨rfl, rfl⟩ := h
      simp [Token.lexeme, ← eq_append_of_munchName hn]
    · simp only [Option.map_eq_some_iff, Prod.exists, Prod.mk.injEq] at h
      obtain ⟨r, s, hr, rfl, rfl⟩ := h
      simp [Token.lexeme, ← eq_append_of_munchNumber hr]

/-- The lexeme of a name after dots stood at the front. -/
private theorem eq_append_of_munchModule {cs rest : List Char} {t : Token}
    (h : munchModule cs = some (t, rest)) : cs = t.lexeme ++ rest := by
  simp only [munchModule, Option.map_eq_some_iff, Prod.exists] at h
  obtain ⟨word, s, hn, h⟩ := h
  have hw := eq_append_of_munchName hn
  split at h
  · rename_i he
    simp only [Prod.mk.injEq] at h
    obtain ⟨rfl, rfl⟩ := h
    rw [hw, he]
    rfl
  · simp only [Prod.mk.injEq] at h
    obtain ⟨rfl, rfl⟩ := h
    simpa [Token.lexeme] using hw

/-- The dots at the front of a text are counted. -/
private theorem takeWhile_dot (cs : List Char) :
    List.replicate (cs.takeWhile (· = '.')).length '.' = cs.takeWhile (· = '.') := by
  induction cs with
  | nil => rfl
  | cons c cs ih =>
    by_cases hc : c = '.'
    · simp [hc, List.replicate_succ, ih]
    · simp [hc]

/-- The lexeme of a module stood at the front. -/
private theorem eq_append_of_munchSource {cs rest : List Char} {t : Token}
    (h : munchSource cs = some (t, rest)) : cs = t.lexeme ++ rest := by
  unfold munchSource at h
  split at h
  · rename_i cs
    simp only [Option.some.injEq, Prod.mk.injEq] at h
    obtain ⟨rfl, rfl⟩ := h
    rw [Token.lexeme, takeWhile_dot, List.takeWhile_append_dropWhile]
  · simp only [Option.map_eq_some_iff, Prod.exists, Prod.mk.injEq] at h
    obtain ⟨r, s, hr, rfl, rfl⟩ := h
    simpa [Token.lexeme] using eq_append_of_munchName hr

/-- A token takes exactly its own text from the front. -/
theorem lexeme_of_munch {mode : Mode} {cs rest : List Char} {t : Token}
    (h : munch mode cs = some (t, rest)) : cs = t.lexeme ++ rest := by
  cases mode with
  | operator => exact eq_append_of_munchOperator h
  | operand => exact eq_append_of_munchOperand h
  | source => exact eq_append_of_munchSource h
  | sourceRest => exact eq_append_of_munchModule h

/-- A name that is munched has characters. -/
private theorem munchName_ne_nil {cs word rest : List Char} (h : munchName cs = some (word, rest)) :
    word ≠ [] := by
  cases cs with
  | nil => simp [munchName] at h
  | cons c cs =>
    simp only [munchName] at h
    split at h
    · simp only [Option.some.injEq, Prod.mk.injEq] at h
      simp [← h.1]
    · simp at h

/-- A number that is munched has characters. -/
private theorem munchNumber_ne_nil {cs read rest : List Char}
    (h : munchNumber cs = some (read, rest)) : read ≠ [] := by
  simp only [munchNumber] at h
  split at h
  · simp at h
  · rename_i hw
    simp only [Option.some.injEq, Prod.mk.injEq] at h
    rw [← h.1]
    simp only [List.append_assoc, ne_eq, List.append_eq_nil_iff, not_and]
    intro _ hd hf _
    exact hw ⟨hd, by simp [hf]⟩

/-- The lexeme of a keyword has characters. -/
private theorem lexeme_ne_nil_of_munchKeyword {ks : List Keyword} {cs rest : List Char} {t : Token}
    (h : munchKeyword ks cs = some (t, rest)) : t.lexeme ≠ [] := by
  fun_induction munchKeyword ks cs with
  | case1 => simp at h
  | case2 k ks cs s hs =>
    simp only [Option.some.injEq, Prod.mk.injEq] at h
    rw [← h.1]
    cases k <;> simp [Token.lexeme, Keyword.spelling]
  | case3 k ks cs _ ih => exact ih h

/-- Every token has a text. -/
theorem lexeme_ne_nil_of_munch {mode : Mode} {cs rest : List Char} {t : Token}
    (h : munch mode cs = some (t, rest)) : t.lexeme ≠ [] := by
  cases mode with
  | operator =>
    change munchOperator cs = some (t, rest) at h
    unfold munchOperator at h
    split at h
    case h_12 cs =>
      simp only [Option.map_eq_some_iff, Prod.exists, Prod.mk.injEq] at h
      obtain ⟨r, s, hr, rfl, rfl⟩ := h
      simp [Token.lexeme, fence]
    case h_13 => exact lexeme_ne_nil_of_munchKeyword h
    all_goals
      simp only [Option.some.injEq, Prod.mk.injEq] at h
      rw [← h.1]
      simp [Token.lexeme, Mark.spelling]
  | operand =>
    change munchOperand cs = some (t, rest) at h
    unfold munchOperand at h
    split at h
    case h_1 cs =>
      simp only [Option.some.injEq, Prod.mk.injEq] at h
      rw [← h.1]
      simp [Token.lexeme, Mark.spelling]
    case h_4 =>
      split at h
      · rename_i hn
        simp only [Option.some.injEq, Prod.mk.injEq] at h
        rw [← h.1]
        simpa [Token.lexeme] using munchName_ne_nil hn
      · simp only [Option.map_eq_some_iff, Prod.exists, Prod.mk.injEq] at h
        obtain ⟨r, s, hr, rfl, rfl⟩ := h
        simpa [Token.lexeme] using munchNumber_ne_nil hr
    all_goals
      simp only [Option.map_eq_some_iff, Prod.exists, Prod.mk.injEq] at h
      obtain ⟨r, s, hr, rfl, rfl⟩ := h
      simp [Token.lexeme]
  | source =>
    change munchSource cs = some (t, rest) at h
    unfold munchSource at h
    split at h
    · simp only [Option.some.injEq, Prod.mk.injEq] at h
      rw [← h.1]
      simp [Token.lexeme]
    · simp only [Option.map_eq_some_iff, Prod.exists, Prod.mk.injEq] at h
      obtain ⟨r, s, hr, rfl, rfl⟩ := h
      simpa [Token.lexeme] using munchName_ne_nil hr
  | sourceRest =>
    simp only [munch, munchModule, Option.map_eq_some_iff, Prod.exists] at h
    obtain ⟨word, s, hn, h⟩ := h
    split at h
    · simp only [Prod.mk.injEq] at h
      rw [← h.1]
      simp [Token.lexeme, Keyword.spelling]
    · simp only [Prod.mk.injEq] at h
      rw [← h.1]
      simpa [Token.lexeme] using munchName_ne_nil hn

/-- Every token shortens the text. -/
theorem length_lt_of_munch {mode : Mode} {cs rest : List Char} {t : Token}
    (h : munch mode cs = some (t, rest)) : rest.length < cs.length := by
  have hl := List.length_pos_iff.mpr (lexeme_ne_nil_of_munch h)
  rw [lexeme_of_munch h, List.length_append]
  omega

end Interpose.Source
