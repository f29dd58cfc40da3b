import Interpose.Proofs.Source.Terminals
import Interpose.Source.Scan

/-!
# Feeding the tokens of a text

`Feeds` says that a machine which takes tokens goes from one state to another over a text, whatever
gaps stand between the tokens. It is built token by token from the front of a text, and it gives
back what scanning the text and taking the tokens one after the other gives. `Legible` is what every
token that is scanned satisfies.
-/

namespace Interpose.Source

/-! ## Single tokens -/

/-- A mark is munched from its spelling. -/
theorem munch_mark (mark : Mark) (rest : List Char) :
    munch .operator (mark.spelling ++ rest) = some (.mark mark, rest) := by
  cases mark <;> rfl

/-- A keyword is munched from its spelling. -/
theorem munch_word (keyword : Keyword) (rest : List Char) :
    munch .operator (keyword.spelling ++ rest) = some (.word keyword, rest) := by
  cases keyword <;> rfl

/-- A body is munched between its fences. -/
theorem munch_body {cs : List Char} (h : ¬ fence <:+: cs) (rest : List Char) :
    munch .operator (fence ++ (cs ++ '\n' :: fence ++ rest)) =
      some (.body (String.ofList (cs ++ ['\n'])), rest) := by
  have hm : munch .operator (fence ++ (cs ++ '\n' :: fence ++ rest)) =
      (untilFence (cs ++ '\n' :: fence ++ rest)).map fun found =>
        (.body (String.ofList found.1), found.2) := rfl
  rw [hm, untilFence_append h]
  rfl

/-- A closing parenthesis is munched where an operand is looked for. -/
theorem munch_closeParen (rest : List Char) :
    munch .operand (')' :: rest) = some (.mark .closeParen, rest) := rfl

/-- A quoted text is munched whole. -/
theorem munch_quoted {cs : List Char} (h : IsQuoted cs) (rest : List Char) :
    munch .operand (cs ++ rest) = some (.quoted (String.ofList cs), rest) := by
  obtain ⟨quote, read, hquote, hread, rfl⟩ := h
  rcases hquote with rfl | rfl
  · simp [munch, munchOperand, munchQuoted_append (by decide) hread]
  · simp [munch, munchOperand, munchQuoted_append (by decide) hread]

/-- No token but a name begins as a name does. -/
private theorem munchOperand_of_munchName {cs word rest : List Char}
    (h : munchName cs = some (word, rest)) :
    munchOperand cs = some (.name (String.ofList word), rest) := by
  unfold munchOperand
  split
  · simp [munchName, isNameStart] at h
  · simp [munchName, isNameStart] at h
  · simp [munchName, isNameStart] at h
  · simp [h]

/-- A name begins a module. -/
private theorem munchSource_of_munchName {cs word rest : List Char}
    (h : munchName cs = some (word, rest)) :
    munchSource cs = some (.name (String.ofList word), rest) := by
  unfold munchSource
  split
  · simp [munchName, isNameStart] at h
  · simp [h]

/-- A name is read where names can stand, unless it is the keyword after a module's dots. -/
theorem munch_name {mode : Mode} {word rest : List Char} (hmode : mode ≠ .operator)
    (hword : isName word) (hrest : EndsName rest)
    (hmodule : mode = .sourceRest → word ≠ Keyword.importWord.spelling) :
    munch mode (word ++ rest) = some (.name (String.ofList word), rest) := by
  have hname := munchName_append hword hrest
  cases mode with
  | operator => exact absurd rfl hmode
  | operand => exact munchOperand_of_munchName hname
  | source => exact munchSource_of_munchName hname
  | sourceRest => simp [munch, munchModule, hname, hmodule rfl]

/-- After dots, the keyword of imports is munched before a name. -/
theorem munch_importWord {rest : List Char} (hrest : EndsName rest) :
    munch .sourceRest (Keyword.importWord.spelling ++ rest) = some (.word .importWord, rest) := by
  have hname : munchName (Keyword.importWord.spelling ++ rest) =
      some (Keyword.importWord.spelling, rest) := munchName_append (by decide) hrest
  simp [munch, munchModule, hname]

/-- No token but a number begins as a number does. -/
theorem munch_of_munchNumber {cs rest : List Char} (h : IsNumber cs)
    (hnumber : munchNumber (cs ++ rest) = some (cs, rest)) :
    munch .operand (cs ++ rest) = some (.number (String.ofList cs), rest) := by
  obtain ⟨c, tail, rfl, hc⟩ := h.exists_cons
  have hname : munchName (c :: (tail ++ rest)) = none := by rw [munchName, if_neg (by simp [hc.1])]
  change munchOperand (c :: (tail ++ rest)) = _
  unfold munchOperand
  split
  · rename_i heq
    exact absurd (List.cons.inj heq).1 hc.2.1
  · rename_i heq
    exact absurd (List.cons.inj heq).1 hc.2.2.1
  · rename_i heq
    exact absurd (List.cons.inj heq).1 hc.2.2.2
  · rw [hname]
    rw [List.cons_append] at hnumber
    simp only [hnumber, Option.map_some]

/-- A number is munched whole where it ends. -/
theorem munch_number {cs rest : List Char} (h : IsNumber cs) (hrest : EndsNumber rest) :
    munch .operand (cs ++ rest) = some (.number (String.ofList cs), rest) :=
  munch_of_munchNumber h (munchNumber_append h hrest)

/-- The dots before a module are munched together. -/
theorem munch_dots {rest : List Char} (count : Nat) (hrest : rest.head? ≠ some '.') :
    munch .source (List.replicate (count + 1) '.' ++ rest) = some (.dots (count + 1), rest) := by
  have hall : (List.replicate (count + 1) '.').all (· = '.') := by simp
  have hhead : ∀ c ∈ rest.head?, decide (c = '.') = false := by
    intro c hc
    rw [decide_eq_false_iff_not]
    rintro rfl
    exact hrest hc
  have htake := takeWhile_append_of_head hall hhead
  have hdrop := dropWhile_append_of_head hall hhead
  rw [List.replicate_succ, List.cons_append] at htake hdrop ⊢
  simp only [munch, munchSource, htake, hdrop, List.length_cons, List.length_replicate]

/-- No token begins where a gap does. -/
theorem munch_gap {c : Char} (h : isSpace c ∨ c = '#') (mode : Mode) (cs : List Char) :
    munch mode (c :: cs) = none := by
  simp only [isSpace, Bool.or_eq_true, decide_eq_true_eq] at h
  rcases h with ((((rfl | rfl) | rfl) | rfl) | rfl) | rfl <;> cases mode <;> rfl

/-- A text that begins with a token begins with no gap. -/
theorem splitGap_of_munch {mode : Mode} {cs rest : List Char} {token : Token}
    (h : munch mode cs = some (token, rest)) : splitGap false cs = ([], cs) := by
  cases cs with
  | nil => rfl
  | cons c cs =>
    have hc : ¬ (isSpace c ∨ c = '#') := fun hgap => by simp [munch_gap hgap] at h
    rw [splitGap, if_neg hc]

/-! ## Machines -/

/-- A machine goes over a text from one state to another, one token after the other. The mode says
which tokens the text can begin with. -/
inductive Feeds {State : Type} (step : State → Token → Option State) :
    Mode → List Char → State → State → Prop
  /-- Nothing but a gap is left. -/
  | done {mode : Mode} {cs : List Char} {state : State} (hgap : (splitGap false cs).2 = []) :
      Feeds step mode cs state state
  /-- A token follows a gap. -/
  | next {mode : Mode} {cs rest : List Char} {state between last : State} {token : Token}
      (hmunch : munch mode (splitGap false cs).2 = some (token, rest))
      (hstep : step state token = some between)
      (hrest : Feeds step (.after token) rest between last) : Feeds step mode cs state last

namespace Feeds

variable {State : Type} {step : State → Token → Option State} {mode : Mode} {cs rest : List Char}
  {state between last : State} {token : Token}

/-- A token at the front of a text. -/
theorem munch (hmunch : munch mode cs = some (token, rest))
    (hstep : step state token = some between)
    (hrest : Feeds step (.after token) rest between last) : Feeds step mode cs state last := by
  refine .next ?_ hstep hrest
  rw [splitGap_of_munch hmunch]
  exact hmunch

/-- A space makes no difference between tokens. -/
theorem space {c : Char} (hc : isSpace c) (h : Feeds step mode cs state last) :
    Feeds step mode (c :: cs) state last := by
  have hgap : (splitGap false (c :: cs)).2 = (splitGap false cs).2 := by
    have hne : decide (c = '#') = false := by
      rw [decide_eq_false_iff_not]
      rintro rfl
      exact absurd hc (by decide)
    rw [splitGap, if_pos (.inl hc), hne]
  cases h with
  | done hdone => exact .done (hgap.trans hdone)
  | next hmunch hstep hrest => exact .next (hgap ▸ hmunch) hstep hrest

/-- Scanning gives the tokens that a machine goes over, and gets nowhere stuck. -/
theorem scanFrom (h : Feeds step mode cs state last) (place : Place) :
    (scanFrom mode place cs).stuck = none ∧
      ((scanFrom mode place cs).tokens.map (·.token)).foldlM step state = some last := by
  induction h generalizing place with
  | done hgap =>
    rw [Source.scanFrom]
    simp [hgap]
  | @next mode cs rest state between last token hmunch hstep hrest ih =>
    have hne : (splitGap false cs).2 ≠ [] := by
      intro hnil
      have hl := length_lt_of_munch hmunch
      simp [hnil] at hl
    rw [Source.scanFrom, if_neg hne]
    split
    · rename_i hnone
      simp [hnone] at hmunch
    · rename_i found left hsome
      obtain ⟨rfl, rfl⟩ : found = token ∧ left = rest := by simpa [hsome] using hmunch
      obtain ⟨hstuck, htokens⟩ := ih (((place.after (splitGap false cs).1)).after found.lexeme)
      refine ⟨hstuck, ?_⟩
      rw [List.map_cons, List.foldlM_cons, hstep]
      exact htokens

end Feeds

/-! ## What is scanned -/

/-- What holds of a token that is read where some tokens can follow. -/
def Token.Legible (mode : Mode) : Token → Prop
  | .name text => isName text.toList ∧
      (mode = .sourceRest → text.toList ≠ Keyword.importWord.spelling)
  | .quoted text => IsQuoted text.toList
  | .number text => IsNumber text.toList
  | .dots count => 0 < count
  | .body text => ¬ fence <:+: text.toList
  | _ => True

/-- A keyword is legible everywhere. -/
private theorem legible_of_munchKeyword {ks : List Keyword} {cs rest : List Char} {token : Token}
    (h : munchKeyword ks cs = some (token, rest)) (mode : Mode) : token.Legible mode := by
  fun_induction munchKeyword ks cs with
  | case1 => simp at h
  | case2 k ks cs s hs =>
    obtain ⟨rfl, _⟩ : Token.word k = token ∧ s = rest := by simpa using h
    trivial
  | case3 k ks cs _ ih => exact ih h

/-- Every token that is read is legible. -/
theorem legible_of_munch {mode : Mode} {cs rest : List Char} {token : Token}
    (h : munch mode cs = some (token, rest)) : token.Legible mode := by
  cases mode with
  | operator =>
    change munchOperator cs = some (token, rest) at h
    unfold munchOperator at h
    split at h
    case h_12 cs =>
      simp only [Option.map_eq_some_iff, Prod.exists, Prod.mk.injEq] at h
      obtain ⟨read, left, hread, rfl, rfl⟩ := h
      simpa [Token.Legible] using fence_not_infix_of_untilFence hread
    case h_13 => exact legible_of_munchKeyword h _
    all_goals
      simp only [Option.some.injEq, Prod.mk.injEq] at h
      obtain ⟨rfl, rfl⟩ := h
      trivial
  | operand =>
    change munchOperand cs = some (token, rest) at h
    unfold munchOperand at h
    split at h
    case h_1 cs =>
      obtain ⟨rfl, rfl⟩ : Token.mark .closeParen = token ∧ cs = rest := by simpa using h
      trivial
    case h_2 cs =>
      simp only [Option.map_eq_some_iff, Prod.exists, Prod.mk.injEq] at h
      obtain ⟨read, left, hread, rfl, rfl⟩ := h
      exact ⟨'"', read, .inl rfl, quotedRest_of_munchQuoted hread, by simp⟩
    case h_3 cs =>
      simp only [Option.map_eq_some_iff, Prod.exists, Prod.mk.injEq] at h
      obtain ⟨read, left, hread, rfl, rfl⟩ := h
      exact ⟨'\'', read, .inr rfl, quotedRest_of_munchQuoted hread, by simp⟩
    case h_4 =>
      split at h
      · rename_i word left hname
        obtain ⟨rfl, rfl⟩ : Token.name (String.ofList word) = token ∧ left = rest := by
          simpa using h
        exact ⟨by simpa using isName_of_munchName hname, by simp⟩
      · simp only [Option.map_eq_some_iff, Prod.exists, Prod.mk.injEq] at h
        obtain ⟨read, left, hread, rfl, rfl⟩ := h
        simpa [Token.Legible] using isNumber_of_munchNumber hread
  | source =>
    change munchSource cs = some (token, rest) at h
    unfold munchSource at h
    split at h
    · rename_i cs
      simp only [Option.some.injEq, Prod.mk.injEq] at h
      obtain ⟨rfl, rfl⟩ := h
      simp [Token.Legible]
    · simp only [Option.map_eq_some_iff, Prod.exists, Prod.mk.injEq] at h
      obtain ⟨word, left, hname, rfl, rfl⟩ := h
      exact ⟨by simpa using isName_of_munchName hname, by simp⟩
  | sourceRest =>
    simp only [Source.munch, munchModule, Option.map_eq_some_iff, Prod.exists] at h
    obtain ⟨word, left, hname, h⟩ := h
    split at h
    · obtain ⟨rfl, rfl⟩ := Prod.mk.inj h
      trivial
    · rename_i hne
      obtain ⟨rfl, rfl⟩ := Prod.mk.inj h
      exact ⟨by simpa using isName_of_munchName hname, fun _ => by simpa using hne⟩

/-- Tokens each of which is legible after the one before it. -/
def Legible : Mode → List Token → Prop
  | _, [] => True
  | mode, token :: tokens => token.Legible mode ∧ Legible (.after token) tokens

/-- The tokens of a text are legible. -/
theorem legible_scanFrom (mode : Mode) (place : Place) (cs : List Char) :
    Legible mode ((scanFrom mode place cs).tokens.map (·.token)) := by
  fun_induction Source.scanFrom mode place cs with
  | case1 => trivial
  | case2 => trivial
  | case3 mode place cs begin hne token rest hmunch more ih =>
    exact ⟨legible_of_munch hmunch, ih⟩

end Interpose.Source
