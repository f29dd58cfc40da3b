import Interpose.Definition.Basic
import Interpose.Proofs.Text.Returns
import Interpose.Source.Scan

/-!
# Scanning texts with carriage returns

Carriage returns before newlines are spaces between tokens and the last characters of comments. No
token but a body goes on over the end of a line. So a text with carriage returns is cut into the
tokens of the text without, at the same lines and columns, and only bodies hold the carriage returns
too.
-/

namespace Interpose.Source

open Text

/-! ## Tokens -/

/-- The token with its body rewritten, if it is a body. -/
def Token.mapBody (f : String → String) : Token → Token
  | .body text => .body (f text)
  | token => token

/-- What can follow a token is the same whatever its body is. -/
@[simp] theorem Mode.after_mapBody (f : String → String) (token : Token) :
    Mode.after (token.mapBody f) = Mode.after token := by
  cases token <;> rfl

/-- A token and what follows it, with carriage returns before their newlines. -/
def returned (found : Token × List Char) : Token × List Char :=
  (found.1.mapBody withReturns, addReturns found.2)

variable {cs : List Char}

/-- A word without line ends is found alike before carriage returns. -/
theorem dropWord_addReturns {word : List Char} (hreturn : '\r' ∉ word) (hnewline : '\n' ∉ word)
    (cs : List Char) : dropWord word (addReturns cs) = (dropWord word cs).map addReturns := by
  induction word generalizing cs with
  | nil => rfl
  | cons w word ih =>
    obtain ⟨hwr, hreturn⟩ : '\r' ≠ w ∧ '\r' ∉ word := by simpa using hreturn
    obtain ⟨hwn, hnewline⟩ : '\n' ≠ w ∧ '\n' ∉ word := by simpa using hnewline
    cases cs with
    | nil => rfl
    | cons c cs =>
      by_cases hc : c = '\n'
      · rw [hc, addReturns_newline, dropWord, dropWord, if_neg (Ne.symm hwr), if_neg (Ne.symm hwn)]
        rfl
      · rw [addReturns_cons hc, dropWord, dropWord]
        split
        · exact ih hreturn hnewline cs
        · rfl

/-- A keyword is found alike before carriage returns. -/
theorem munchKeyword_addReturns (keywords : List Keyword) (cs : List Char) :
    munchKeyword keywords (addReturns cs) = (munchKeyword keywords cs).map returned := by
  induction keywords with
  | nil => rfl
  | cons keyword keywords ih =>
    have hreturn : '\r' ∉ keyword.spelling := by cases keyword <;> decide
    have hnewline : '\n' ∉ keyword.spelling := by cases keyword <;> decide
    have hword := dropWord_addReturns hreturn hnewline cs
    rw [munchKeyword, munchKeyword, hword]
    cases dropWord keyword.spelling cs with
    | none => exact ih
    | some rest => rfl

/-- A name is found alike before carriage returns. -/
theorem munchName_addReturns (cs : List Char) :
    munchName (addReturns cs) = (munchName cs).map fun found => (found.1, addReturns found.2) := by
  cases cs with
  | nil => rfl
  | cons c cs =>
    by_cases hc : c = '\n'
    · rw [hc]
      rfl
    · rw [addReturns_cons hc, munchName, munchName, takeWhile_addReturns rfl rfl,
        dropWhile_addReturns rfl rfl]
      split <;> rfl

/-- A literal goes on from a character that takes no other one along. -/
theorem munchQuoted_cons {quote c : Char} (h : c = '\\' → cs = []) : munchQuoted quote (c :: cs) =
    if c = quote then some ([c], cs)
    else if c = '\n' ∨ c = '\\' then none
    else (munchQuoted quote cs).map fun found => (c :: found.1, found.2) := by
  rw [munchQuoted]
  intro d ds hc hcs
  rw [h hc] at hcs
  exact absurd hcs (by simp)

/-- A literal does not go on over the end of a line. -/
theorem munchQuoted_addReturns {quote : Char} (hreturn : quote ≠ '\r') (hnewline : quote ≠ '\n')
    (cs : List Char) : munchQuoted quote (addReturns cs) =
      (munchQuoted quote cs).map fun found => (found.1, addReturns found.2) := by
  have hnone : ∀ ds, munchQuoted quote ('\n' :: ds) = none := by
    intro ds
    rw [munchQuoted_cons (by simp), if_neg (Ne.symm hnewline), if_pos (by decide)]
  have hlast : ∀ (c : Char) (ds : List Char),
      (∀ d rest, c = '\\' → ds = d :: rest → False) → c = '\\' → addReturns ds = [] := by
    intro c ds hescape hc
    cases ds with
    | nil => rfl
    | cons d rest => exact (hescape d rest hc rfl).elim
  fun_induction munchQuoted quote cs with
  | case1 => rfl
  | case2 cs =>
    rw [addReturns_cons (by decide), addReturns_newline, munchQuoted, if_neg (by decide), hnone]
    rfl
  | case3 c cs hc ih =>
    rw [addReturns_cons (by decide), addReturns_cons hc, munchQuoted, if_neg hc, ih]
    simp [Function.comp_def]
  | case4 cs hescape =>
    rw [addReturns_cons hnewline, munchQuoted_cons (hlast _ _ hescape), if_pos rfl]
    rfl
  | case5 c cs hescape hquote hc =>
    by_cases hline : c = '\n'
    · rw [hline, addReturns_newline, munchQuoted_cons (by simp), if_neg (Ne.symm hreturn),
        if_neg (by decide), hnone]
      rfl
    · rw [addReturns_cons hline, munchQuoted_cons (hlast _ _ hescape), if_neg hquote, if_pos hc]
      rfl
  | case6 c cs hescape hquote hc ih =>
    have hline : c ≠ '\n' := fun hline => hc (.inl hline)
    rw [addReturns_cons hline, munchQuoted_cons (hlast _ _ hescape), if_neg hquote, if_neg hc, ih]
    simp [Function.comp_def]

/-- A sign is found alike before carriage returns. -/
theorem munchSign_addReturns (cs : List Char) :
    munchSign (addReturns cs) = ((munchSign cs).1, addReturns (munchSign cs).2) := by
  cases cs with
  | nil => rfl
  | cons c cs =>
    by_cases hc : c = '\n'
    · rw [hc]
      rfl
    · rw [addReturns_cons hc]
      unfold munchSign
      split <;> simp_all [addReturns_cons]

/-- A fraction is found alike before carriage returns. -/
theorem munchFraction_addReturns (cs : List Char) :
    munchFraction (addReturns cs) = ((munchFraction cs).1, addReturns (munchFraction cs).2) := by
  cases cs with
  | nil => rfl
  | cons c cs =>
    by_cases hc : c = '\n'
    · rw [hc]
      rfl
    · rw [addReturns_cons hc]
      by_cases hpoint : c = '.'
      · rw [hpoint, munchFraction, munchFraction, takeWhile_addReturns rfl rfl,
          dropWhile_addReturns rfl rfl]
      · have hnone : ∀ ds, munchFraction (c :: ds) = ([], c :: ds) := by
          intro ds
          rw [munchFraction]
          simp [hpoint]
        rw [hnone, hnone, addReturns_cons hc]

/-- An exponent is found alike before carriage returns. -/
theorem munchExponent_addReturns (cs : List Char) :
    munchExponent (addReturns cs) = ((munchExponent cs).1, addReturns (munchExponent cs).2) := by
  cases cs with
  | nil => rfl
  | cons c cs =>
    by_cases hc : c = '\n'
    · rw [hc]
      simp [munchExponent]
    · rw [addReturns_cons hc, munchExponent, munchExponent, munchSign_addReturns,
        takeWhile_addReturns rfl rfl, dropWhile_addReturns rfl rfl]
      split
      · rfl
      · rw [addReturns_cons hc]

/-- A number is found alike before carriage returns. -/
theorem munchNumber_addReturns (cs : List Char) : munchNumber (addReturns cs) =
    (munchNumber cs).map fun found => (found.1, addReturns found.2) := by
  simp only [munchNumber, munchSign_addReturns, takeWhile_addReturns (p := Char.isDigit) rfl rfl,
    dropWhile_addReturns (p := Char.isDigit) rfl rfl, munchFraction_addReturns,
    munchExponent_addReturns]
  split <;> rfl

/-- No fence begins at any other character. -/
theorem untilFence_cons {c : Char} (h : c ≠ '\x60') (cs : List Char) :
    untilFence (c :: cs) = (untilFence cs).map fun found => (c :: found.1, found.2) := by
  rw [untilFence]
  intro rest hc
  exact absurd hc h

/-- The text before a fence keeps its carriage returns. -/
theorem untilFence_addReturns (cs : List Char) : untilFence (addReturns cs) =
    (untilFence cs).map fun found => (addReturns found.1, addReturns found.2) := by
  fun_induction untilFence cs with
  | case1 => rfl
  | case2 rest => rfl
  | case3 c cs hfence ih =>
    by_cases hc : c = '\n'
    · rw [hc, addReturns_newline, untilFence_cons (by decide), untilFence_cons (by decide), ih]
      simp [Function.comp_def]
    · have hmore : ∀ rest, c = '\x60' → addReturns cs = '\x60' :: '\x60' :: rest → False := by
        intro rest htick hrest
        obtain ⟨more, rfl, hmore⟩ := exists_cons_of_addReturns (by decide) hrest
        obtain ⟨last, rfl, _⟩ := exists_cons_of_addReturns (by decide) hmore
        exact hfence last htick rfl
      rw [addReturns_cons hc, untilFence, ih]
      · simp [Function.comp_def, addReturns_cons hc]
      · exact hmore

/-! ## Tokens at the front -/

/-- An operator is found alike before carriage returns. -/
theorem munchOperator_addReturns (cs : List Char) :
    munchOperator (addReturns cs) = (munchOperator cs).map returned := by
  fun_cases munchOperator cs
  case case12 cs =>
    change (untilFence (addReturns cs)).map _ = _
    rw [untilFence_addReturns, Option.map_map, Option.map_map]
    simp [Function.comp_def, returned, Token.mapBody, withReturns]
  case case13 _ _ _ _ harrow _ _ _ _ _ _ hfence =>
    rw [← munchKeyword_addReturns]
    -- The text with carriage returns begins with a mark only if the text without does.
    unfold munchOperator
    split
    case h_5 hcs =>
      obtain ⟨rest, rfl, hrest⟩ := exists_cons_of_addReturns (by decide) hcs
      obtain ⟨more, rfl, _⟩ := exists_cons_of_addReturns (by decide) hrest
      exact absurd rfl (harrow more)
    case h_12 hcs =>
      obtain ⟨rest, rfl, hrest⟩ := exists_cons_of_addReturns (by decide) hcs
      obtain ⟨more, rfl, hmore⟩ := exists_cons_of_addReturns (by decide) hrest
      obtain ⟨last, rfl, _⟩ := exists_cons_of_addReturns (by decide) hmore
      exact absurd rfl (hfence last)
    case h_13 => rfl
    all_goals
      rename_i hcs
      refine absurd hcs (addReturns_ne_cons (by decide) ?_ _)
      assumption
  all_goals rfl

/-- An operand is found alike before carriage returns, which only a body keeps. -/
theorem munchOperand_addReturns (cs : List Char) :
    munchOperand (addReturns cs) = (munchOperand cs).map returned := by
  fun_cases munchOperand cs
  case case1 => rfl
  case case2 cs =>
    change (munchQuoted '"' (addReturns cs)).map _ = _
    rw [munchQuoted_addReturns (by decide) (by decide), Option.map_map, Option.map_map]
    rfl
  case case3 cs =>
    change (munchQuoted '\'' (addReturns cs)).map _ = _
    rw [munchQuoted_addReturns (by decide) (by decide), Option.map_map, Option.map_map]
    rfl
  case case4 word rest hparen hdouble hsingle hname =>
    rw [munchOperand, munchName_addReturns, hname]
    · rfl
    · exact addReturns_ne_cons (by decide) hparen
    · exact addReturns_ne_cons (by decide) hdouble
    · exact addReturns_ne_cons (by decide) hsingle
  case case5 hparen hdouble hsingle hname =>
    rw [munchOperand, munchName_addReturns, hname]
    · change (munchNumber (addReturns cs)).map _ = _
      rw [munchNumber_addReturns, Option.map_map, Option.map_map]
      rfl
    · exact addReturns_ne_cons (by decide) hparen
    · exact addReturns_ne_cons (by decide) hdouble
    · exact addReturns_ne_cons (by decide) hsingle

/-- A name after dots is found alike before carriage returns. -/
theorem munchModule_addReturns (cs : List Char) :
    munchModule (addReturns cs) = (munchModule cs).map returned := by
  rw [munchModule, munchModule, munchName_addReturns, Option.map_map, Option.map_map]
  congr 1
  funext found
  simp only [Function.comp_apply]
  split <;> rfl

/-- A module is found alike before carriage returns. -/
theorem munchSource_addReturns (cs : List Char) :
    munchSource (addReturns cs) = (munchSource cs).map returned := by
  fun_cases munchSource cs
  case case1 cs =>
    rw [← takeWhile_addReturns (p := (· = '.')) rfl rfl, Option.map_some, returned,
      ← dropWhile_addReturns (p := (· = '.')) rfl rfl]
    rfl
  case case2 hdot =>
    rw [munchSource, munchName_addReturns, Option.map_map, Option.map_map]
    · rfl
    · exact addReturns_ne_cons (by decide) hdot

/-- The token at the front of a text with carriage returns is that of the text without. -/
theorem munch_addReturns (mode : Mode) (cs : List Char) :
    munch mode (addReturns cs) = (munch mode cs).map returned := by
  cases mode with
  | operator => exact munchOperator_addReturns cs
  | operand => exact munchOperand_addReturns cs
  | source => exact munchSource_addReturns cs
  | sourceRest => exact munchModule_addReturns cs

/-! ## Places and gaps -/

/-- The place in a text with carriage returns, one of which stands on each line above. -/
def Place.withReturns (place : Place) : Place :=
  ⟨place.offset + (place.line - 1), place.line, place.column⟩

/-- Carriage returns move what stands on the lines below them, but leave its lines and columns. -/
theorem Place.withReturns_after {place : Place} (h : 0 < place.line) (cs : List Char) :
    place.withReturns.after (addReturns cs) = (place.after cs).withReturns := by
  induction cs generalizing place with
  | nil => rfl
  | cons c cs ih =>
    by_cases hc : c = '\n'
    · have hnext : (place.withReturns.next '\r').next '\n' = (place.next '\n').withReturns := by
        simp only [next, withReturns, Char.reduceEq, if_true, if_false, Place.mk.injEq, and_true]
        omega
      rw [hc, addReturns_newline]
      change ((place.withReturns.next '\r').next '\n').after _ = _
      rw [hnext]
      exact ih (Nat.succ_pos _)
    · have hnext : place.withReturns.next c = (place.next c).withReturns := by
        simp only [next, withReturns, if_neg hc, Place.mk.injEq, and_true]
        omega
      have hline : (place.next c).line = place.line := by simp [next, hc]
      rw [addReturns_cons hc]
      change (place.withReturns.next c).after _ = _
      rw [hnext]
      exact ih (hline ▸ h)

/-- A carriage return before a newline belongs to the gap that the newline belongs to. -/
theorem splitGap_addReturns (comment : Bool) (cs : List Char) : splitGap comment (addReturns cs) =
    (addReturns (splitGap comment cs).1, addReturns (splitGap comment cs).2) := by
  fun_induction splitGap comment cs with
  | case1 => simp [splitGap]
  | case2 c cs gap rest hsplit ih =>
    by_cases hc : c = '\n'
    · subst hc
      simp_all [splitGap]
    · simp_all [splitGap, addReturns_cons]
  | case3 c cs hgap gap rest hsplit ih =>
    by_cases hc : c = '\n'
    · subst hc
      simp_all [splitGap, isSpace]
    · simp_all [splitGap, addReturns_cons]
  | case4 c cs hgap =>
    have hc : c ≠ '\n' := by
      rintro rfl
      exact hgap (.inl rfl)
    rw [addReturns_cons hc, splitGap, if_neg hgap]
    rfl

/-! ## Scans -/

/-- The token where it stands in the text with carriage returns. -/
def Placed.withReturns (placed : Placed) : Placed :=
  ⟨placed.token.mapBody Text.withReturns, placed.place.withReturns⟩

/-- The scan of the text with carriage returns. -/
def Scan.withReturns (scan : Scan) : Scan where
  tokens := scan.tokens.map Placed.withReturns
  stuck := scan.stuck.map Place.withReturns

/-- A token takes its text away with the carriage returns in it. -/
theorem lexeme_returned {mode : Mode} {token : Token} {rest : List Char}
    (h : munch mode cs = some (token, rest)) :
    (token.mapBody Text.withReturns).lexeme = addReturns token.lexeme := by
  have hmunch : munch mode (addReturns cs) =
      some (token.mapBody Text.withReturns, addReturns rest) := by
    rw [munch_addReturns, h]
    rfl
  have hlexeme := lexeme_of_munch hmunch
  rw [lexeme_of_munch h, addReturns_append] at hlexeme
  exact (List.append_cancel_right hlexeme).symm

/-- A text is scanned with carriage returns as it is scanned without. -/
theorem scanFrom_addReturns (mode : Mode) {place : Place} (h : 0 < place.line) (cs : List Char) :
    scanFrom mode place.withReturns (addReturns cs) = (scanFrom mode place cs).withReturns := by
  fun_induction scanFrom mode place cs with
  | case1 mode place cs hend =>
    rw [scanFrom, splitGap_addReturns, if_pos (addReturns_eq_nil_iff.mpr hend)]
    rfl
  | case2 mode place cs begin hne hnone =>
    have hrest : (splitGap false (addReturns cs)).2 ≠ [] := by simpa [splitGap_addReturns] using hne
    have hmunch : munch mode (addReturns (splitGap false cs).2) = none := by
      rw [munch_addReturns, hnone]
      rfl
    rw [scanFrom, if_neg hrest, splitGap_addReturns, Place.withReturns_after h]
    split
    · rfl
    · rename_i hsome
      cases hsome.symm.trans hmunch
  | case3 mode place cs begin hne token rest hmunch more ih =>
    have hrest : (splitGap false (addReturns cs)).2 ≠ [] := by simpa [splitGap_addReturns] using hne
    have hreturned : munch mode (addReturns (splitGap false cs).2) =
        some (token.mapBody Text.withReturns, addReturns rest) := by
      rw [munch_addReturns, hmunch]
      rfl
    have hbegin : 0 < begin.line := by
      rw [Place.line_after]
      omega
    have hmore : 0 < (begin.after token.lexeme).line := by
      rw [Place.line_after]
      omega
    rw [scanFrom, if_neg hrest, splitGap_addReturns, Place.withReturns_after h]
    split
    · rename_i hnone
      cases hnone.symm.trans hreturned
    · rename_i found left hsome
      obtain ⟨rfl, rfl⟩ : found = token.mapBody Text.withReturns ∧ left = addReturns rest := by
        simpa using hsome.symm.trans hreturned
      rw [lexeme_returned hmunch, Place.withReturns_after hbegin, Mode.after_mapBody, ih hmore]
      rfl

/-- A text with carriage returns is cut into the tokens of the text without. -/
theorem scan_addReturns (cs : List Char) : scan (addReturns cs) = (scan cs).withReturns := by
  have hline : 0 < Place.start.line := Nat.one_pos
  exact scanFrom_addReturns .operator hline cs

end Interpose.Source
