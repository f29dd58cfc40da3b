import Interpose.Proofs.Source.Spacing
import Mathlib.Data.List.Forall2

/-!
# Texts cut at their tokens

A text is cut at its tokens into the ignored text before each of them and the ignored text at its
end. Tokens that were read from a text are read again when the text is laid out anew, because
nothing but a gap comes between tokens that touch and nothing that parted two tokens goes away.
-/

namespace Interpose.Source

/-- A token and the ignored text before it. -/
structure Spaced where
  /-- The ignored text. -/
  gap : List Char
  /-- The token. -/
  token : Token
  deriving DecidableEq, Repr

/-- The ignored text and the token's own text. -/
def Spaced.text (item : Spaced) : List Char := item.gap ++ item.token.lexeme

/-- The text of tokens and what is ignored before them. -/
def spread (items : List Spaced) : List Char := items.flatMap Spaced.text

/-- The tokens at their places in a text that begins at a place. -/
def spreadPlaces : Place → List Spaced → List Placed
  | _, [] => []
  | place, item :: items =>
    ⟨item.token, place.after item.gap⟩ :: spreadPlaces (place.after item.text) items

/-- What can follow the last of several tokens. -/
def modeAfter : Mode → List Spaced → Mode
  | mode, [] => mode
  | _, item :: items => modeAfter (.after item.token) items

/-- A text cut at its tokens. -/
structure Cut where
  /-- The tokens, each with what is ignored before it. -/
  items : List Spaced
  /-- What is ignored after the last token. -/
  trailer : List Char
  deriving DecidableEq, Repr

namespace Cut

/-- The text that is cut. -/
def text (cut : Cut) : List Char := spread cut.items ++ cut.trailer

/-- The cut of a text at the tokens that are scanned in it. -/
structure Cuts (cut : Cut) (text : List Char) : Prop where
  /-- Nothing is lost. -/
  whole : cut.text = text
  /-- The tokens stand where they are scanned. -/
  tokens : spreadPlaces .start cut.items = (scan text).tokens
  /-- What stands before a token is ignored. -/
  gaps : ∀ item ∈ cut.items, Spacing item.gap
  /-- What stands after the last token is ignored. -/
  trailer : Trailing cut.trailer

end Cut

/-! ## Other layouts -/

/-- What may become of the ignored text at a boundary between tokens. -/
inductive Respaces : List Char → List Char → Prop
  /-- It stays. -/
  | keep (gap : List Char) : Respaces gap gap
  /-- Something is inserted between complete pieces of it. -/
  | insert {before inserted after : List Char} (hbefore : Spacing before)
      (hinserted : Spacing inserted) : Respaces (before ++ after) (before ++ inserted ++ after)
  /-- Something is added at its end. -/
  | add {gap inserted : List Char} (hinserted : Spacing inserted) : Respaces gap (gap ++ inserted)
  /-- Something else takes its place, which is not nothing. -/
  | replace {gap other : List Char} (hgap : gap ≠ []) (hother : other ≠ [])
      (hspacing : Spacing other) : Respaces gap other

/-- The same token with what is ignored before it changed. -/
structure Spaced.Respaced (item other : Spaced) : Prop where
  token : other.token = item.token
  gap : Respaces item.gap other.gap

/-- The same tokens with what is ignored at their boundaries changed. -/
structure Cut.Respaced (cut other : Cut) : Prop where
  items : List.Forall₂ Spaced.Respaced cut.items other.items
  trailer : Respaces cut.trailer other.trailer

namespace Respaces

variable {gap other : List Char}

/-- Where tokens touch, any complete ignored text may be put. -/
theorem of_nil (h : Spacing other) : Respaces [] other := .add h

theorem eq_nil (h : Respaces gap other) (hother : other = []) : gap = [] := by
  cases h with
  | keep => exact hother
  | @insert before inserted after _ _ =>
    obtain ⟨hbefore, _, hafter⟩ : before = [] ∧ inserted = [] ∧ after = [] := by
      simpa using hother
    rw [hbefore, hafter, List.append_nil]
  | add _ => exact (List.append_eq_nil_iff.mp hother).1
  | replace _ hne _ => exact absurd hother hne

/-- What stood before a token is ignored there after the change too. -/
theorem spacing (h : Respaces gap other) (hgap : Spacing gap) : Spacing other := by
  cases h with
  | keep => exact hgap
  | insert hbefore hinserted =>
    exact (hbefore.append hinserted).append (hbefore.of_append hgap)
  | add hinserted => exact hgap.append hinserted
  | replace _ _ hspacing => exact hspacing

/-- What stood at the end of a text is ignored there after the change too. -/
theorem splitGap_eq_nil (h : Respaces gap other) (hgap : (splitGap false gap).2 = []) :
    (splitGap false other).2 = [] := by
  cases h with
  | keep => exact hgap
  | @insert before inserted after hbefore hinserted =>
    rw [hbefore.splitGap_append] at hgap
    rw [(hbefore.append hinserted).splitGap_append]
    exact hgap
  | add hinserted => exact hinserted.splitGap_append_eq_nil hgap
  | replace _ _ hspacing => exact hspacing.splitGap_eq_nil false

end Respaces

/-! ## Reading the tokens of a text -/

theorem opensGap_of_splitGap {cs : List Char} (h : (splitGap false cs).2 = []) : OpensGap cs := by
  cases cs with
  | nil => exact .nil
  | cons c cs =>
    by_cases hc : isSpace c ∨ c = '#'
    · exact .cons hc cs
    · rw [splitGap, if_neg hc] at h
      simp at h

/-- What is left of a text without the gap at its front does not begin with a gap. -/
theorem not_opensGap_splitGap {comment : Bool} {cs : List Char}
    (h : (splitGap comment cs).2 ≠ []) : ¬ OpensGap (splitGap comment cs).2 := by
  fun_induction splitGap comment cs with
  | case1 => exact absurd rfl h
  | case2 c cs gap rest hsplit ih =>
    rw [hsplit] at ih
    exact ih h
  | case3 c cs _ gap rest hsplit ih =>
    rw [hsplit] at ih
    exact ih h
  | case4 c cs hc =>
    intro hopens
    exact hc (hopens c rfl)

/-- A token does not begin with a gap. -/
theorem not_opensGap_of_munch {mode : Mode} {token : Token} {rest : List Char}
    (h : munch mode (token.lexeme ++ rest) = some (token, rest)) (other : List Char) :
    ¬ OpensGap (token.lexeme ++ other) := by
  obtain ⟨c, tail, hlexeme⟩ := List.exists_cons_of_ne_nil (lexeme_ne_nil_of_munch h)
  rw [hlexeme] at h ⊢
  intro hopens
  have hgap : isSpace c ∨ c = '#' := hopens c rfl
  rw [List.cons_append, munch_gap hgap] at h
  simp at h

/-- Tokens are read one after the other from the front of a text, each after the ignored text before
it. -/
inductive Munches : Mode → List Spaced → List Char → Prop
  /-- No token is read. -/
  | nil {mode : Mode} {rest : List Char} : Munches mode [] rest
  /-- A token is read first. -/
  | cons {mode : Mode} {item : Spaced} {items : List Spaced} {rest : List Char}
      (hgap : Spacing item.gap)
      (hmunch : munch mode (item.token.lexeme ++ (spread items ++ rest)) =
        some (item.token, spread items ++ rest))
      (hitems : Munches (.after item.token) items rest) : Munches mode (item :: items) rest

theorem spread_cons_append (item : Spaced) (items : List Spaced) (rest : List Char) :
    spread (item :: items) ++ rest = item.gap ++ (item.token.lexeme ++ (spread items ++ rest)) := by
  simp [spread, Spaced.text]

/-- Every text is cut at the tokens that are read from it, up to the place where none is found. -/
theorem exists_munches (mode : Mode) (place : Place) (cs : List Char) :
    ∃ items rest, cs = spread items ++ rest ∧ Munches mode items rest ∧
      (scanFrom mode place cs).tokens = spreadPlaces place items ∧
      (scanFrom mode place cs).stuck = if (splitGap false rest).2 = [] then none
        else some ((place.after (spread items)).after (splitGap false rest).1) := by
  fun_induction scanFrom mode place cs with
  | case1 mode place cs hend => exact ⟨[], cs, rfl, .nil, rfl, by rw [if_pos hend]⟩
  | case2 mode place cs begin hne hnone => exact ⟨[], cs, rfl, .nil, rfl, by rw [if_neg hne]; rfl⟩
  | case3 mode place cs begin hne token rest hmunch more ih =>
    obtain ⟨items, left, rfl, hitems, htokens, hstuck⟩ := ih
    have hlexeme := lexeme_of_munch hmunch
    have hwhole := splitGap_append false cs
    refine ⟨⟨(splitGap false cs).1, token⟩ :: items, left, ?_, ?_, ?_, ?_⟩
    · rw [spread_cons_append, ← hlexeme, hwhole]
    · exact .cons (spacing_of_splitGap hne) (hlexeme ▸ hmunch) hitems
    · rw [htokens, spreadPlaces, Spaced.text, Place.after_append]
    · rw [hstuck]
      simp [begin, spread, Spaced.text]

variable {mode : Mode} {items others : List Spaced} {rest other : List Char}

/-- Between two tokens, the text after the first can be replaced by the text of the other layout. -/
private theorem Munches.replaces (h : Munches mode items rest)
    (hitems : List.Forall₂ Spaced.Respaced items others) (hother : OpensGap other) :
    Replaces mode (spread items ++ rest) (spread others ++ other) := by
  cases h with
  | nil =>
    cases hitems
    exact .inl hother
  | @cons _ item items _ hgap hmunch hrest =>
    cases hitems with
    | @cons _ next _ others hitem hitems =>
      rw [spread_cons_append, spread_cons_append]
      by_cases hnil : next.gap = []
      · -- The tokens touch in both layouts, and the later one begins alike in both.
        obtain ⟨c, tail, hlexeme⟩ := List.exists_cons_of_ne_nil (lexeme_ne_nil_of_munch hmunch)
        rw [hlexeme] at hmunch
        rw [hitem.gap.eq_nil hnil, hnil, hitem.token, hlexeme]
        refine .inr ⟨rfl, ?_⟩
        rintro rfl
        exact head_ne_exponent_of_munch hmunch
      · exact .inl ((hitem.gap.spacing hgap).opensGap_append hnil _)

/-- The tokens of a text are read from every other layout of it. -/
theorem Munches.respaced (h : Munches mode items rest)
    (hitems : List.Forall₂ Spaced.Respaced items others) (hother : OpensGap other) :
    Munches mode others other := by
  induction h generalizing others with
  | nil =>
    cases hitems
    exact .nil
  | @cons mode item items rest hgap hmunch hrest ih =>
    cases hitems with
    | @cons _ next _ others hitem hitems =>
      refine .cons (hitem.gap.spacing hgap) ?_ (hitem.token ▸ ih hitems)
      rw [hitem.token]
      exact munch_replaces hmunch (hrest.replaces hitems hother)

/-- What is ignored before a token that is read is complete. -/
theorem Munches.gaps (h : Munches mode items rest) : ∀ item ∈ items, Spacing item.gap := by
  induction h with
  | nil => simp
  | cons hgap _ _ ih => exact List.forall_mem_cons.mpr ⟨hgap, ih⟩

/-- What is read for a token is that token. -/
theorem Munches.exists_munch (h : Munches mode items rest) :
    ∀ item ∈ items, ∃ before left,
      munch before (item.token.lexeme ++ left) = some (item.token, left) := by
  induction h with
  | nil => simp
  | @cons mode item items rest _ hmunch _ ih =>
    exact List.forall_mem_cons.mpr ⟨⟨mode, spread items ++ rest, hmunch⟩, ih⟩

/-- The tokens of a text are read from every text that ends in a gap after them. -/
theorem Munches.before (h : Munches mode items rest) (hother : OpensGap other) :
    Munches mode items other :=
  h.respaced (List.forall₂_same.mpr fun item _ => ⟨rfl, .keep item.gap⟩) hother

theorem spread_append (items more : List Spaced) :
    spread (items ++ more) = spread items ++ spread more := List.flatMap_append

/-- The first tokens of a text are read before the others. -/
theorem Munches.of_append {more : List Spaced} (h : Munches mode (items ++ more) rest) :
    Munches mode items (spread more ++ rest) := by
  induction items generalizing mode with
  | nil => exact .nil
  | cons item items ih =>
    rw [List.cons_append] at h
    cases h with
    | cons hgap hmunch hitems =>
      rw [spread_append, List.append_assoc] at hmunch
      exact .cons hgap hmunch (ih hitems)

/-- A machine goes over a text when it goes over the tokens that are read from it and over the
rest. -/
theorem Munches.feeds {State : Type} {step : State → Token → Option State}
    {state between last : State} (h : Munches mode items rest)
    (hrun : (items.map (·.token)).foldlM step state = some between)
    (hrest : Feeds step (modeAfter mode items) rest between last) :
    Feeds step mode (spread items ++ rest) state last := by
  induction h generalizing state with
  | nil =>
    obtain rfl : state = between := Option.some.inj hrun
    exact hrest
  | @cons mode item items rest hgap hmunch hitems ih =>
    rw [List.map_cons, List.foldlM_cons] at hrun
    obtain ⟨next, hstep, hrun⟩ := Option.bind_eq_some_iff.mp hrun
    rw [spread_cons_append]
    refine .next ?_ hstep (ih hrun hrest)
    rw [hgap.splitGap_append, splitGap_of_munch hmunch]
    exact hmunch

/-! ## The cut of a text -/

/-- A token at its place among others is one of the tokens that a text is cut at. -/
theorem exists_split_of_spreadPlaces {place : Place} {items : List Spaced}
    {before after : List Placed} {placed : Placed}
    (h : spreadPlaces place items = before ++ placed :: after) :
    ∃ front item back, items = front ++ item :: back ∧ before = spreadPlaces place front ∧
      placed = ⟨item.token, place.after (spread front ++ item.gap)⟩ := by
  induction items generalizing place before with
  | nil => simp [spreadPlaces] at h
  | cons first items ih =>
    rw [spreadPlaces] at h
    cases before with
    | nil =>
      obtain ⟨rfl, _⟩ := List.cons.inj h
      exact ⟨[], first, items, rfl, rfl, rfl⟩
    | cons other before =>
      obtain ⟨rfl, hmore⟩ := List.cons.inj h
      obtain ⟨front, item, back, rfl, rfl, hplaced⟩ := ih hmore
      refine ⟨first :: front, item, back, rfl, rfl, ?_⟩
      rw [hplaced]
      simp [spread]

theorem token_spreadPlaces (place : Place) (items : List Spaced) :
    (spreadPlaces place items).map (·.token) = items.map (·.token) := by
  induction items generalizing place with
  | nil => rfl
  | cons item items ih => rw [spreadPlaces, List.map_cons, List.map_cons, ih]

theorem tokens_eq_of_respaced {items others : List Spaced}
    (h : List.Forall₂ Spaced.Respaced items others) :
    others.map (·.token) = items.map (·.token) := by
  induction h with
  | nil => rfl
  | cons hitem _ ih => rw [List.map_cons, List.map_cons, hitem.token, ih]

/-- Tokens at their places in a text tell what is ignored before each of them. -/
private theorem spread_unique {place : Place} {items others : List Spaced} {rest left : List Char}
    (hplaces : spreadPlaces place items = spreadPlaces place others)
    (htext : spread items ++ rest = spread others ++ left) : items = others ∧ rest = left := by
  induction items generalizing place others with
  | nil =>
    cases others with
    | nil => exact ⟨rfl, htext⟩
    | cons other others => simp [spreadPlaces] at hplaces
  | cons item items ih =>
    cases others with
    | nil => simp [spreadPlaces] at hplaces
    | cons other others =>
      rw [spreadPlaces, spreadPlaces] at hplaces
      obtain ⟨hfirst, hmore⟩ := List.cons.inj hplaces
      obtain ⟨htoken, hplace⟩ := Placed.mk.inj hfirst
      have hlength : item.gap.length = other.gap.length := by
        have hoffset := congrArg Place.offset hplace
        rw [Place.offset_after, Place.offset_after] at hoffset
        omega
      rw [spread_cons_append, spread_cons_append] at htext
      obtain ⟨hgap, htail⟩ := List.append_inj htext hlength
      rw [htoken] at htail
      have hitem : item = other := by
        cases item
        cases other
        cases hgap
        cases htoken
        rfl
      subst hitem
      obtain ⟨hitems, hrest⟩ := ih hmore (List.append_cancel_left htail)
      exact ⟨by rw [hitems], hrest⟩

/-- A text has one cut at its tokens. -/
theorem Cut.Cuts.unique {cut other : Cut} {text : List Char} (h : cut.Cuts text)
    (hother : other.Cuts text) : cut = other := by
  obtain ⟨hitems, htrailer⟩ := spread_unique (h.tokens.trans hother.tokens.symm)
    (h.whole.trans hother.whole.symm)
  cases cut
  cases other
  cases hitems
  cases htrailer
  rfl

/-- A text that is scanned to its end is cut at the tokens that are read from it. -/
theorem exists_cut_of_scan {text : List Char} (h : (scan text).stuck = none) :
    ∃ cut : Cut, cut.Cuts text ∧ Munches .operator cut.items cut.trailer ∧
      (splitGap false cut.trailer).2 = [] := by
  obtain ⟨items, trailer, htext, hmunches, htokens, hend⟩ := exists_munches .operator .start text
  have htrailer : (splitGap false trailer).2 = [] := by
    by_contra hne
    rw [if_neg hne] at hend
    exact absurd (hend.symm.trans h) (by simp)
  exact ⟨⟨items, trailer⟩, ⟨htext.symm, htokens.symm, hmunches.gaps,
    trailing_of_splitGap htrailer⟩, hmunches, htrailer⟩

end Interpose.Source
