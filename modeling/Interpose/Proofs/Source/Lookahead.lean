import Interpose.Proofs.Source.Pieces

/-!
# What follows a token

A token is read as far as it goes, so the text after it matters only by its first character. Once a
token has been read, it is read again when a gap comes after it, and when another text comes after
it that begins with the same character.
-/

namespace Interpose.Source

/-- A text that is at its end or begins with a gap. -/
def OpensGap (cs : List Char) : Prop := ∀ c ∈ cs.head?, isSpace c ∨ c = '#'

/-- A text that can take the place of the text after a token, when tokens of some mode follow. The
exponent of a number is the one part of a token that more than its first character decides on. -/
def Replaces (mode : Mode) (rest other : List Char) : Prop :=
  OpensGap other ∨ (other.head? = rest.head? ∧
    (mode = .operator → ∀ c ∈ rest.head?, c ≠ 'e' ∧ c ≠ 'E'))

/-! ## Boundaries -/

/-- The end of a text opens a gap. -/
theorem OpensGap.nil : OpensGap [] := by
  intro c hc
  simp at hc

/-- A blank or a comment opens a gap. -/
theorem OpensGap.cons {c : Char} (h : isSpace c ∨ c = '#') (cs : List Char) :
    OpensGap (c :: cs) := by
  intro d hd
  obtain rfl : c = d := by simpa using hd
  exact h

/-- A number ends where a gap opens. -/
theorem OpensGap.endsNumber {cs : List Char} (h : OpensGap cs) : EndsNumber cs := by
  have hgap : ∀ c ∈ cs.head?, isNameRest c = false ∧ c ≠ '.' := by
    intro c hc
    have hc := h c hc
    simp only [isSpace, Bool.or_eq_true, decide_eq_true_eq] at hc
    rcases hc with ((((rfl | rfl) | rfl) | rfl) | rfl) | rfl <;> decide
  refine ⟨fun c hc => (hgap c hc).1, ?_⟩
  intro hpoint
  exact (hgap '.' hpoint).2 rfl

namespace Replaces

variable {mode : Mode} {rest other : List Char}

/-- A name that ends before a rest ends before what replaces it too. -/
theorem endsName (h : Replaces mode rest other) (hrest : EndsName rest) : EndsName other := by
  rcases h with hgap | ⟨hhead, _⟩
  · exact hgap.endsNumber.1
  · intro c hc
    exact hrest c (hhead ▸ hc)

/-- What replaces a rest begins with a dot only when the rest does. -/
theorem head_ne_point (h : Replaces mode rest other) (hrest : rest.head? ≠ some '.') :
    other.head? ≠ some '.' := by
  rcases h with hgap | ⟨hhead, _⟩
  · exact hgap.endsNumber.2
  · rw [hhead]
    exact hrest

/-- Digits end before what replaces a rest when they end before the rest. -/
theorem endsDigits (h : Replaces .operator rest other)
    (hrest : ∀ c ∈ rest.head?, c.isDigit = false) : EndsDigits other := by
  rcases h with hgap | ⟨hhead, hletter⟩
  · exact hgap.endsNumber.1.endsDigits
  · intro c hc
    rw [hhead] at hc
    exact ⟨hrest c hc, hletter rfl c hc⟩

end Replaces

/-! ## Terminals -/

/-- A text that holds no fence, also not together with what follows it, is read up to its end. -/
theorem untilFence_append_fence {cs : List Char} (h : ¬ fence <:+: cs ++ fence.dropLast)
    (rest : List Char) : untilFence (cs ++ fence ++ rest) = some (cs, rest) := by
  induction cs with
  | nil => rfl
  | cons c cs ih =>
    have hcs : ¬ fence <:+: cs ++ fence.dropLast := fun hin =>
      h (hin.trans (List.suffix_cons c _).isInfix)
    simp only [List.cons_append]
    unfold untilFence
    split
    · simp at *
    · rename_i tail heq
      -- A fence at the front would end within the text or within the fence after it.
      exfalso
      match cs, heq with
      | [], heq =>
        obtain ⟨rfl, _⟩ : c = '\x60' ∧ _ := by simpa [fence] using heq
        exact h ⟨[], [], rfl⟩
      | [a], heq =>
        obtain ⟨rfl, rfl, _⟩ : c = '\x60' ∧ a = '\x60' ∧ _ := by simpa [fence] using heq
        exact h ⟨[], ['\x60'], rfl⟩
      | a :: b :: cs, heq =>
        obtain ⟨rfl, rfl, rfl, _⟩ : c = '\x60' ∧ a = '\x60' ∧ b = '\x60' ∧ _ := by simpa using heq
        exact h ⟨[], cs ++ fence.dropLast, rfl⟩
    · rename_i heq
      obtain ⟨rfl, rfl⟩ := List.cons.inj heq
      rw [ih hcs]
      rfl

variable {mode : Mode} {cs rest other word read : List Char} {token : Token}

/-- A number that has been read is read again before another text. -/
theorem munchNumber_replaces (h : munchNumber cs = some (read, rest))
    (hother : Replaces .operator rest other) :
    munchNumber (read ++ other) = some (read, other) := by
  obtain ⟨sign, whole, fraction, exponent, hsign, hwhole, hfraction, hexponent, hone, rfl, hdigit,
    hpoint⟩ := exists_parts_of_munchNumber h
  exact munchNumber_parts_append hsign hwhole hfraction hexponent hone (hother.endsDigits hdigit)
    fun hf he => hother.head_ne_point (hpoint hf he)

/-! ## Tokens -/

/-- Only keywords are found by looking for keywords. -/
private theorem exists_of_munchKeyword {ks : List Keyword}
    (h : munchKeyword ks cs = some (token, rest)) : ∃ k, token = .word k := by
  fun_induction munchKeyword ks cs with
  | case1 => simp at h
  | case2 k ks cs s hs =>
    obtain ⟨rfl, _⟩ : Token.word k = token ∧ s = rest := by simpa using h
    exact ⟨k, rfl⟩
  | case3 k ks cs _ ih => exact ih h

/-- A name is munched from its lexeme. -/
private theorem munch_name_lexeme (mode : Mode) (hmode : mode ≠ .operator) (hword : isName word)
    (hrest : EndsName rest) (hmodule : mode = .sourceRest → word ≠ Keyword.importWord.spelling) :
    munch mode ((Token.name (String.ofList word)).lexeme ++ rest) =
      some (.name (String.ofList word), rest) := by
  rw [Token.lexeme, String.toList_ofList]
  exact munch_name hmode hword hrest hmodule

/-- An operator is munched from its lexeme, whatever follows. -/
private theorem munchOperator_other (h : munchOperator cs = some (token, rest)) :
    munchOperator (token.lexeme ++ other) = some (token, other) := by
  unfold munchOperator at h
  split at h
  case h_12 cs =>
    simp only [Option.map_eq_some_iff, Prod.exists, Prod.mk.injEq] at h
    obtain ⟨read, left, hread, rfl, rfl⟩ := h
    have hfence := untilFence_append_fence (fence_not_infix_append_of_untilFence hread) other
    have hlexeme : munchOperator ((Token.body (String.ofList read)).lexeme ++ other) =
        (untilFence (read ++ fence ++ other)).map fun found =>
          (.body (String.ofList found.1), found.2) := by
      rw [Token.lexeme, String.toList_ofList, List.append_assoc, List.append_assoc,
        ← List.append_assoc read]
      rfl
    rw [hlexeme, hfence, Option.map_some]
  case h_13 =>
    obtain ⟨k, rfl⟩ := exists_of_munchKeyword h
    exact munch_word k other
  all_goals
    simp only [Option.some.injEq, Prod.mk.injEq] at h
    obtain ⟨rfl, rfl⟩ := h
    rfl

/-- An operand is munched from its lexeme before what replaces the rest. -/
private theorem munchOperand_replaces (h : munchOperand cs = some (token, rest))
    (hother : Replaces (.after token) rest other) :
    munchOperand (token.lexeme ++ other) = some (token, other) := by
  have hmunch : munch .operand cs = some (token, rest) := h
  have hlexeme := isLexeme_of_munch hmunch
  unfold munchOperand at h
  split at h
  case h_1 cs =>
    obtain ⟨rfl, rfl⟩ : Token.mark .closeParen = token ∧ cs = rest := by simpa using h
    rfl
  case h_4 =>
    split at h
    · rename_i word left hname
      obtain ⟨rfl, rfl⟩ : Token.name (String.ofList word) = token ∧ left = rest := by
        simpa using h
      exact munch_name_lexeme .operand (by decide) (isName_of_munchName hname)
        (hother.endsName (endsName_of_munchName hname)) (by simp)
    · simp only [Option.map_eq_some_iff, Prod.exists, Prod.mk.injEq] at h
      obtain ⟨read, left, hread, rfl, rfl⟩ := h
      rw [Token.lexeme, String.toList_ofList]
      exact munch_of_munchNumber (isNumber_of_munchNumber hread) (munchNumber_replaces hread hother)
  all_goals
    simp only [Option.map_eq_some_iff, Prod.exists, Prod.mk.injEq] at h
    obtain ⟨read, left, _, rfl, rfl⟩ := h
    have hquoted := munch_quoted hlexeme other
    rwa [String.ofList_toList] at hquoted

/-- A module is munched from its lexeme before what replaces the rest. -/
private theorem munchSource_replaces (h : munchSource cs = some (token, rest))
    (hother : Replaces (.after token) rest other) :
    munchSource (token.lexeme ++ other) = some (token, other) := by
  unfold munchSource at h
  split at h
  · rename_i cs
    simp only [Option.some.injEq, Prod.mk.injEq] at h
    obtain ⟨rfl, hrest⟩ := h
    have hpoint : rest.head? ≠ some '.' := by
      intro hhead
      rw [← hrest] at hhead
      exact absurd (head_dropWhile (p := (· = '.')) _ '.' hhead) (by decide)
    obtain ⟨count, hcount⟩ : ∃ count, (('.' :: cs).takeWhile (· = '.')).length = count + 1 :=
      ⟨(cs.takeWhile (· = '.')).length, by simp⟩
    rw [hcount]
    exact munch_dots count (hother.head_ne_point hpoint)
  · simp only [Option.map_eq_some_iff, Prod.exists, Prod.mk.injEq] at h
    obtain ⟨word, left, hname, rfl, rfl⟩ := h
    exact munch_name_lexeme .source (by decide) (isName_of_munchName hname)
      (hother.endsName (endsName_of_munchName hname)) (by simp)

/-- A name after dots is munched from its lexeme before what replaces the rest. -/
private theorem munchModule_replaces (h : munchModule cs = some (token, rest))
    (hother : Replaces (.after token) rest other) :
    munchModule (token.lexeme ++ other) = some (token, other) := by
  simp only [munchModule, Option.map_eq_some_iff, Prod.exists] at h
  obtain ⟨word, left, hname, h⟩ := h
  have hends := endsName_of_munchName hname
  split at h
  · obtain ⟨rfl, rfl⟩ := Prod.mk.inj h
    exact munch_importWord (hother.endsName hends)
  · rename_i hne
    obtain ⟨rfl, rfl⟩ := Prod.mk.inj h
    exact munch_name_lexeme .sourceRest (by decide) (isName_of_munchName hname)
      (hother.endsName hends) fun _ => hne

/-- A token that has been read is read again before another text. -/
theorem munch_replaces (h : munch mode cs = some (token, rest))
    (hother : Replaces (.after token) rest other) :
    munch mode (token.lexeme ++ other) = some (token, other) := by
  cases mode with
  | operator => exact munchOperator_other h
  | operand => exact munchOperand_replaces h hother
  | source => exact munchSource_replaces h hother
  | sourceRest => exact munchModule_replaces h hother

/-- No token that follows a number begins as an exponent does. -/
theorem head_ne_exponent_of_munch (h : munch .operator cs = some (token, rest)) :
    ∀ c ∈ cs.head?, c ≠ 'e' ∧ c ≠ 'E' := by
  intro c hc
  obtain ⟨tail, rfl⟩ := List.head?_eq_some_iff.mp hc
  constructor
  · rintro rfl
    have hnone : munch .operator ('e' :: tail) = none := rfl
    simp [hnone] at h
  · rintro rfl
    have hnone : munch .operator ('E' :: tail) = none := rfl
    simp [hnone] at h

end Interpose.Source
