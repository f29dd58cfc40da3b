import Interpose.Proofs.Definition.Completion
import Interpose.Proofs.Grammar.Parsing
import Interpose.Proofs.Source.Cut
import Interpose.Proofs.Source.Places

/-!
# Where a text stops being a definition file

A text that is refused is refused at the first place where it cannot go on: what stands before that
place is the beginning of some definition file. The tokens before it have been read, and a text that
completes them can follow after a space.
-/

namespace Interpose

open Source Grammar

/-- A text that some definition file begins with. -/
def Viable (cs : List Char) : Prop := ∃ more, Grammatical (cs ++ more)

/-! ## Readings that go on -/

/-- A run looks for the tokens of a text as they follow each other. -/
theorem Reading.mode_foldlM {place : Place} {items : List Spaced} {reading next : Reading}
    (h : (items.map (·.token)).foldlM (fun reading token => reading.step token place) reading =
      some next) : next.mode = modeAfter reading.mode items := by
  induction items generalizing reading with
  | nil =>
    obtain rfl : reading = next := Option.some.inj h
    rfl
  | cons item items ih =>
    rw [List.map_cons, List.foldlM_cons] at h
    obtain ⟨between, hstep, hmore⟩ := Option.bind_eq_some_iff.mp h
    rw [ih hmore, mode_step hstep]
    rfl

/-- What a reading has gone over is the beginning of a definition file, with a gap after it. -/
theorem viable_of_run {items : List Spaced} {gap rest : List Char} {reading : Reading}
    {last : Place} (hmunches : Munches .operator items rest) (hgap : Spacing gap)
    (hrun : Reading.start.run .start (spreadPlaces .start items) = .ok (reading, last)) :
    Viable (spread items ++ gap) := by
  have htokens := Reading.foldlM_of_run .start hrun
  rw [token_spreadPlaces] at htokens
  obtain ⟨cs, definition, final, hfeeds, hdone⟩ :=
    (reading.mapSpan (Span.moveTo .start)).completable
  rw [Reading.mode_foldlM htokens] at hfeeds
  have hblank : OpensGap (gap ++ ' ' :: cs) := by
    by_cases hne : gap = []
    · rw [hne]
      exact .cons (.inl rfl) cs
    · exact hgap.opensGap_append hne _
  have hreads : Reading.start.Reads .start definition .operator
      (spread items ++ (gap ++ ' ' :: cs)) :=
    ⟨final, (hmunches.before hblank).feeds htokens (.spacing hgap (hfeeds.space rfl)), hdone⟩
  obtain ⟨read, hread, _⟩ := exists_readDefinition_of_reads hreads
  refine ⟨' ' :: cs, ?_⟩
  rw [List.append_assoc]
  exact exists_readDefinition_iff.mp ⟨read, hread⟩

/-! ## Places of refusal -/

/-- A run stops at the first token that is refused. -/
theorem Reading.exists_split_of_run {tokens : List Placed} {reading : Reading} {last stop : Place}
    (h : reading.run last tokens = .error stop) : ∃ before placed after next between,
      tokens = before ++ placed :: after ∧ placed.place = stop ∧
      reading.run last before = .ok (next, between) := by
  induction tokens generalizing reading last with
  | nil => simp [run] at h
  | cons placed tokens ih =>
    cases hstep : reading.step placed.token placed.place with
    | none =>
      have hstop : placed.place = stop := by simpa [run, hstep] using h
      exact ⟨[], placed, tokens, reading, last, rfl, hstop, rfl⟩
    | some next =>
      have hmore : next.run placed.place tokens = .error stop := by simpa [run, hstep] using h
      obtain ⟨before, other, after, final, between, rfl, hstop, hrun⟩ := ih hmore
      exact ⟨placed :: before, other, after, final, between, rfl, hstop, by simpa [run, hstep]⟩

/-- A run remembers the place of the last token. -/
theorem Reading.run_concat {tokens : List Placed} {placed : Placed} {reading next : Reading}
    {last after : Place} (h : reading.run last (tokens ++ [placed]) = .ok (next, after)) :
    placed.place = after ∧ ∃ between there, reading.run last tokens = .ok (between, there) := by
  induction tokens generalizing reading last with
  | nil =>
    cases hstep : reading.step placed.token placed.place with
    | none => simp [run, hstep] at h
    | some other =>
      have hplace : other = next ∧ placed.place = after := by simpa [run, hstep] using h
      exact ⟨hplace.2, reading, last, rfl⟩
  | cons first tokens ih =>
    cases hstep : reading.step first.token first.place with
    | none => simp [run, hstep] at h
    | some other =>
      have hmore : other.run first.place (tokens ++ [placed]) = .ok (next, after) := by
        simpa [run, hstep] using h
      obtain ⟨hplace, between, there, hrun⟩ := ih hmore
      exact ⟨hplace, between, there, by simpa [run, hstep]⟩

/-- The text before a token that a reading has come to is viable, and the token begins there. -/
private theorem viable_of_split {items : List Spaced} {rest : List Char}
    {before after : List Placed} {placed : Placed} {next : Reading} {there : Place}
    (hmunches : Munches .operator items rest)
    (hsplit : spreadPlaces .start items = before ++ placed :: after)
    (hrun : Reading.start.run .start before = .ok (next, there)) :
    ∃ front left, spread items ++ rest = front ++ left ∧ ¬ OpensGap left ∧
      placed.place = Place.start.after front ∧ Viable front := by
  obtain ⟨front, item, back, rfl, rfl, rfl⟩ := exists_split_of_spreadPlaces hsplit
  refine ⟨spread front ++ item.gap, item.token.lexeme ++ (spread back ++ rest), ?_, ?_, rfl, ?_⟩
  · rw [spread_append, List.append_assoc, spread_cons_append, ← List.append_assoc]
  · obtain ⟨mode, left, hmunch⟩ := hmunches.exists_munch item (by simp)
    exact not_opensGap_of_munch hmunch _
  · have hgap : Spacing item.gap := hmunches.gaps item (by simp)
    exact viable_of_run hmunches.of_append hgap hrun

/-- A text that is not read is refused after a beginning of a definition file, where a character
stands that may not be ignored. -/
theorem exists_refused_of_ofScan {text : List Char} {stop : Place}
    (h : Definition.ofScan (scan text) = .error stop) :
    ∃ front left, text = front ++ left ∧ ¬ OpensGap left ∧ stop = Place.start.after front ∧
      Viable front := by
  obtain ⟨items, rest, rfl, hmunches, htokens, hstuck⟩ := exists_munches .operator .start text
  rw [Definition.ofScan, scan, htokens, hstuck] at h
  cases hrun : Reading.start.run .start (spreadPlaces .start items) with
  | error place =>
    -- A token is refused.
    obtain rfl : place = stop := by simpa [hrun] using h
    obtain ⟨before, placed, after, next, between, hsplit, rfl, hbefore⟩ :=
      Reading.exists_split_of_run hrun
    exact viable_of_split hmunches hsplit hbefore
  | ok found =>
    obtain ⟨reading, last⟩ := found
    by_cases hend : (splitGap false rest).2 = []
    · -- The text ends too early, after some token, since an empty text is complete.
      cases hdone : reading.done? with
      | some definition => simp [hrun, hend, hdone] at h
      | none =>
        obtain rfl : last = stop := by simpa [hrun, hend, hdone] using h
        rcases List.eq_nil_or_concat' (spreadPlaces .start items) with
          hnil | ⟨before, placed, hlast⟩
        · rw [hnil] at hrun
          obtain ⟨rfl, _⟩ := Prod.mk.inj (Except.ok.inj hrun)
          simp [Reading.start, Reading.done?] at hdone
        · rw [hlast] at hrun
          obtain ⟨rfl, between, there, hbefore⟩ := Reading.run_concat hrun
          exact viable_of_split hmunches hlast hbefore
    · -- No token begins where the text goes on.
      have hplace : stop = Place.start.after (spread items ++ (splitGap false rest).1) := by
        simpa [hrun, hend, eq_comm] using h
      refine ⟨_, (splitGap false rest).2, ?_, not_opensGap_splitGap hend, hplace,
        viable_of_run hmunches (spacing_of_splitGap hend) hrun⟩
      rw [List.append_assoc, splitGap_append]

/-- A text that is not read is refused after a beginning of a definition file. -/
theorem exists_viable_of_ofScan {text : List Char} {stop : Place}
    (h : Definition.ofScan (scan text) = .error stop) :
    ∃ front, front <+: text ∧ stop = Place.start.after front ∧ Viable front := by
  obtain ⟨front, left, rfl, _, hstop, hviable⟩ := exists_refused_of_ofScan h
  exact ⟨front, List.prefix_append _ _, hstop, hviable⟩

/-- A text is refused as no definition file only when it is read. -/
theorem readDefinition_eq_error_of_parse {text : String} {span : Span} {context : String}
    (h : parse text = .error (.malformed span context)) :
    readDefinition text.toList = .error (.malformed span context) := by
  rw [parse, bind_eq_error_iff] at h
  rcases h with hread | ⟨read, _, hrest⟩
  · exact hread
  · rcases bind_eq_error_iff.mp hrest with hclean | ⟨cleaned, _, hnames⟩
    · obtain ⟨_, _, hfault⟩ := exists_of_clean_eq_error hclean
      cases hfault
    · rcases bind_eq_error_iff.mp hnames with hcheck | ⟨_, _, hpure⟩
      · have hkind := kind_of_checkImpls hcheck
        cases hkind
      · cases hpure

/-- A text is refused before a character, at the place of that character and with its context. -/
theorem exists_refused_of_parse {text : String} {span : Span} {help : String}
    (h : parse text = .error (.malformed span help)) : ∃ front c rest,
      text.toList = front ++ c :: rest ∧ c ≠ '\n' ∧
      span = .ofPlace (Place.start.after front) ∧ help = context text.toList front.length := by
  have hread := readDefinition_eq_error_of_parse h
  unfold readDefinition at hread
  cases hscan : Definition.ofScan (scan text.toList) with
  | ok definition => simp [hscan] at hread
  | error stop =>
    obtain ⟨hspan, hhelp⟩ : Span.ofPlace stop = span ∧ context text.toList stop.offset = help := by
      simpa [hscan] using hread
    obtain ⟨front, left, htext, hgap, rfl, _⟩ := exists_refused_of_ofScan hscan
    cases left with
    | nil => exact absurd .nil hgap
    | cons c rest =>
      refine ⟨front, c, rest, htext, ?_, hspan.symm, ?_⟩
      · rintro rfl
        exact hgap (.cons (.inl rfl) rest)
      · rw [← hhelp, Place.offset_after, Place.start, Nat.zero_add]

/-- The span of a text that is no definition file points into the text, and what stands before it is
the beginning of a definition file. -/
theorem viable_of_parse {text : String} {span : Span} {context : String}
    (h : parse text = .error (.malformed span context)) :
    (∃ front, front <+: text.toList ∧ span = .ofPlace (Place.start.after front)) ∧
      ∀ front, front <+: text.toList → span = .ofPlace (Place.start.after front) →
        Viable front := by
  have hread := readDefinition_eq_error_of_parse h
  unfold readDefinition at hread
  cases hscan : Definition.ofScan (scan text.toList) with
  | ok definition => simp [hscan] at hread
  | error stop =>
    obtain ⟨hspan, _⟩ : Span.ofPlace stop = span ∧ _ := by simpa [hscan] using hread
    obtain ⟨front, hfront, rfl, hviable⟩ := exists_viable_of_ofScan hscan
    refine ⟨⟨front, hfront, hspan.symm⟩, fun other hother hplace => ?_⟩
    obtain rfl := eq_of_ofPlace_after hfront hother (hspan.trans hplace)
    exact hviable

/-- What stands before the place where a method is found to have no body. -/
def bodilessFront : String := "impl A(B) \x7b # a method\n  rpc f(x: B[C]) -> D "

/-- What is said of the place: the line around it, and a mark below it. -/
def bodilessContext : String := "  rpc f(x: B[C]) -> D \x7d\n                      ^"

theorem viable_of_parse_bodiless :
    parse (bodilessFront ++ "\x7d") = .error (.malformed ⟨some 2, some 23⟩ bodilessContext) ∧
      Viable bodilessFront.toList := by
  have hparse : parse (bodilessFront ++ "\x7d") =
      .error (.malformed ⟨some 2, some 23⟩ bodilessContext) := by decide +kernel
  have hfront : bodilessFront.toList <+: (bodilessFront ++ "\x7d").toList := by
    rw [String.toList_append]
    exact List.prefix_append _ _
  exact ⟨hparse, (viable_of_parse hparse).2 bodilessFront.toList hfront (by decide +kernel)⟩

end Interpose
