import Interpose.Proofs.Definition.RoundTrip
import Interpose.Proofs.Grammar.Viable
import Interpose.Proofs.Source.Below

/-!
# Files one below the other

What is complete of a file plays no part in reading on: a token that begins an item is read after
any complete file as it is read at the start. So a file is read below another one as it is read
alone, and what the two stand for is put together.
-/

namespace Interpose

open Source

variable {Body : Type}

/-- The items of one definition and then those of another one. -/
instance : Append (Definition Body) where
  append definition other :=
    ⟨definition.imports ++ other.imports, definition.impls ++ other.impls⟩

theorem Definition.append_eq (definition other : Definition Body) : definition ++ other =
    ⟨definition.imports ++ other.imports, definition.impls ++ other.impls⟩ := rfl

/-- The definition as many lines further down. -/
def Definition.lower (lines : Nat) (definition : Definition String) : Definition String :=
  definition.mapSpan (Span.lower lines) id

namespace Reading

/-- The reading with the items of a definition before those that it has read. -/
def onto (definition : Definition Fenced) (reading : Reading) : Reading :=
  ⟨definition.imports ++ reading.imports, definition.impls ++ reading.impls, reading.focus⟩

variable {definition : Definition Fenced} {token : Token} {place : Place}

/-! ## Steps -/

/-- What is complete already plays no part in beginning an item. -/
theorem stepItems_onto (reading : Reading) (notes : List Annotation) :
    (reading.onto definition).stepItems notes token place =
      (reading.stepItems notes token place).map (onto definition) := by
  unfold stepItems
  split <;> rfl

/-- What is complete already plays no part in beginning a method. -/
theorem stepMethods_onto (reading : Reading) (impl : OpenImpl) (notes : List Annotation) :
    (reading.onto definition).stepMethods impl notes token place =
      (reading.stepMethods impl notes token place).map (onto definition) := by
  unfold stepMethods
  split
  · rfl
  · rfl
  · simp [onto]
  · rfl

/-- What is complete already plays no part in reading on after a base. -/
theorem stepBases_onto (reading : Reading) (impl : OpenImpl) :
    (reading.onto definition).stepBases impl token =
      (reading.stepBases impl token).map (onto definition) := by
  unfold stepBases
  split <;> rfl

/-- What is complete already plays no part in reading on after a parameter. -/
theorem stepParams_onto (reading : Reading) (impl : OpenImpl) (head : MethodHead) :
    (reading.onto definition).stepParams impl head token =
      (reading.stepParams impl head token).map (onto definition) := by
  unfold stepParams
  split <;> rfl

/-- What is complete already plays no part in reading a body. -/
theorem stepBody_onto (reading : Reading) (impl : OpenImpl) (head : MethodHead)
    (result : Option TypeExpr) : (reading.onto definition).stepBody impl head result token place =
      (reading.stepBody impl head result token place).map (onto definition) := by
  unfold stepBody
  split <;> rfl

/-- What is complete already plays no part in reading the token after a pause. -/
theorem pause_step_onto (reading : Reading) (pause : Pause) :
    pause.step (reading.onto definition) token place =
      (pause.step reading token place).map (onto definition) := by
  cases pause with
  | items notes => exact stepItems_onto reading notes
  | bases impl => exact stepBases_onto reading impl
  | methods impl notes => exact stepMethods_onto reading impl notes
  | params impl head => exact stepParams_onto reading impl head
  | body impl head result => exact stepBody_onto reading impl head result

/-- What is complete already plays no part in reading a token. -/
theorem step_onto (token : Token) (place : Place) (reading : Reading) :
    (reading.onto definition).step token place =
      (reading.step token place).map (onto definition) := by
  have hfocus : (reading.onto definition).focus = reading.focus := rfl
  rw [step_eq, step_eq, hfocus]
  cases reading.focus.advance token place with
  | some focus => rfl
  | none =>
    cases reading.focus.pause? with
    | none => rfl
    | some paused =>
      have himports : (reading.onto definition).addImports paused.1 =
          (reading.addImports paused.1).onto definition := by
        simp [onto, addImports]
      simp only [Option.bind_some, himports]
      exact pause_step_onto (reading.addImports paused.1) paused.2

/-- A complete file stays complete below another one. -/
theorem done?_onto (reading : Reading) :
    (reading.onto definition).done? = reading.done?.map (definition ++ ·) := by
  have honto : (reading.onto definition).focus = reading.focus := rfl
  cases hfocus : reading.focus with
  | items notes =>
    simp only [done?, honto, hfocus]
    cases notes <;> rfl
  | importing inner =>
    simp only [done?, honto, hfocus]
    cases inner.done? with
    | none => rfl
    | some done => simp [onto, Definition.append_eq]
  | _ => simp only [done?, honto, hfocus, Option.map_none]

/-! ## Reading on after a complete file -/

/-- No token that begins an item goes on with an import. -/
theorem step_eq_none_of_stepItems {inner : ImportReading} {reading next : Reading}
    {notes : List Annotation} (hdone : inner.done?.isSome)
    (h : reading.stepItems notes token place = some next) : inner.step token = none := by
  unfold stepItems at h
  split at h
  case h_6 => simp at h
  all_goals
    cases inner <;> first | rfl | simp [ImportReading.done?] at hdone

/-- What is open when an item begins plays no part in reading its first token. -/
theorem stepItems_go (reading : Reading) (focus : Focus) (notes : List Annotation) :
    (reading.go focus).stepItems notes token place = reading.stepItems notes token place := rfl

/-- A token that is read at the start is read alike after a complete file. -/
theorem step_of_done? {reading next : Reading} (hdone : reading.done? = some definition)
    (h : start.step token place = some next) :
    reading.step token place = some (next.onto definition) := by
  have hitems : start.stepItems [] token place = some next := h
  have honto : (start.onto definition).stepItems [] token place = some (next.onto definition) := by
    rw [stepItems_onto, hitems]
    rfl
  have hfile : ∀ focus : Focus, (start.onto definition).go focus =
      ⟨definition.imports, definition.impls, focus⟩ := by
    intro focus
    simp [onto, start, go]
  rw [← stepItems_go _ reading.focus, hfile] at honto
  obtain ⟨imports, impls, focus⟩ := reading
  cases focus with
  | items notes =>
    cases notes with
    | nil =>
      obtain rfl := Option.some.inj hdone
      exact honto
    | cons note notes => simp [done?] at hdone
  | importing inner =>
    obtain ⟨done, hinner, rfl⟩ := Option.map_eq_some_iff.mp hdone
    have hnone := step_eq_none_of_stepItems (by rw [hinner]; rfl) hitems
    simp only [step, hnone, hinner]
    exact honto
  | _ => simp [done?] at hdone

/-! ## Runs -/

/-- A run over tokens goes on with the tokens after them. -/
theorem run_append {tokens more : List Placed} {reading between : Reading} {last there : Place}
    (h : reading.run last tokens = .ok (between, there)) :
    reading.run last (tokens ++ more) = between.run there more := by
  induction tokens generalizing reading last with
  | nil =>
    obtain ⟨rfl, rfl⟩ : reading = between ∧ last = there := by simpa [run] using h
    rfl
  | cons placed tokens ih =>
    rw [List.cons_append]
    cases hstep : reading.step placed.token placed.place with
    | none => simp [run, hstep] at h
    | some next =>
      simp only [run, hstep] at h ⊢
      exact ih h

/-- What is complete already plays no part in a run. -/
theorem run_onto {tokens : List Placed} {reading next : Reading} {last after : Place}
    (h : reading.run last tokens = .ok (next, after)) :
    (reading.onto definition).run last tokens = .ok (next.onto definition, after) := by
  induction tokens generalizing reading last with
  | nil =>
    obtain ⟨rfl, rfl⟩ : reading = next ∧ last = after := by simpa [run] using h
    rfl
  | cons placed tokens ih =>
    cases hstep : reading.step placed.token placed.place with
    | none => simp [run, hstep] at h
    | some between =>
      simp only [run, hstep, step_onto, Option.map_some] at h ⊢
      exact ih h

/-- Tokens that stand further down are read to the same file further down. -/
theorem run_lower (chars lines : Nat) {tokens : List Placed} {reading next : Reading}
    {last after : Place} (h : reading.run last tokens = .ok (next, after)) :
    (reading.mapSpan (Span.lower lines)).run (last.lower chars lines)
        (tokens.map fun placed => ⟨placed.token, placed.place.lower chars lines⟩) =
      .ok (next.mapSpan (Span.lower lines), after.lower chars lines) := by
  induction tokens generalizing reading last with
  | nil =>
    obtain ⟨rfl, rfl⟩ : reading = next ∧ last = after := by simpa [run] using h
    rfl
  | cons placed tokens ih =>
    have hspan := Span.lower_ofPlace chars lines placed.place
    cases hstep : reading.step placed.token placed.place with
    | none => simp [run, hstep] at h
    | some between =>
      simp only [run, hstep] at h
      simp only [List.map_cons, run, step_mapSpan hspan, hstep, Option.map_some]
      exact ih h

/-- The tokens of a file are read after a complete file as they are read alone. -/
theorem exists_run_of_done? {tokens : List Placed} {reading next : Reading}
    {last there after : Place} {below : Definition Fenced}
    (hdone : reading.done? = some definition)
    (hrun : start.run last tokens = .ok (next, after)) (hnext : next.done? = some below) :
    ∃ final after, reading.run there tokens = .ok (final, after) ∧
      final.done? = some (definition ++ below) := by
  cases tokens with
  | nil =>
    obtain ⟨rfl, rfl⟩ : start = next ∧ last = after := by simpa [run] using hrun
    obtain rfl := Option.some.inj hnext
    refine ⟨reading, there, rfl, hdone.trans ?_⟩
    simp [Definition.append_eq, start]
  | cons placed tokens =>
    cases hstep : start.step placed.token placed.place with
    | none => simp [run, hstep] at hrun
    | some between =>
      simp only [run, hstep] at hrun
      refine ⟨next.onto definition, after, ?_, by rw [done?_onto, hnext]; rfl⟩
      simp only [run, step_of_done? hdone hstep]
      exact run_onto hrun

/-- Whatever ends a file can be followed by a keyword or a mark. -/
theorem mode_of_done? {reading : Reading} (h : reading.done?.isSome) :
    reading.mode = .operator := by
  obtain ⟨imports, impls, focus⟩ := reading
  cases focus with
  | items notes => rfl
  | importing inner =>
    cases inner with
    | _ => first | rfl | simp [done?, ImportReading.done?] at h
  | _ => simp [done?] at h

end Reading

/-! ## Texts -/

/-- A text that is read below another one is read as the items of the text above and then its own,
as many lines further down. -/
theorem readDefinition_below {above below : List Char} {first second : Definition Fenced}
    {lines : Nat} (hlines : lines = 1 + above.count '\n')
    (habove : readDefinition above = .ok first) (hbelow : readDefinition below = .ok second) :
    readDefinition (above ++ '\n' :: below) =
      .ok (first ++ second.mapSpan (Span.lower lines) (Fenced.mapSpan (Span.lower lines))) := by
  obtain ⟨hstuck, last, there, hrun, hdone⟩ :=
    Definition.ofScan_eq_ok_iff.mp (readDefinition_eq_ok_iff.mp habove)
  obtain ⟨hbstuck, next, after, hbrun, hnext⟩ :=
    Definition.ofScan_eq_ok_iff.mp (readDefinition_eq_ok_iff.mp hbelow)
  obtain ⟨cut, hcut, hmunches, _⟩ := exists_cut_of_scan hstuck
  have hmode : modeAfter .operator cut.items = .operator := by
    have htokens := Reading.foldlM_of_run .start hrun
    rw [← hcut.tokens, token_spreadPlaces] at htokens
    refine (Reading.mode_foldlM htokens).symm.trans (Reading.mode_of_done? ?_)
    rw [Reading.done?_mapSpan, hdone]
    rfl
  have hnext' : (next.mapSpan (Span.lower lines)).done? =
      some (second.mapSpan (Span.lower lines) (Fenced.mapSpan (Span.lower lines))) := by
    rw [Reading.done?_mapSpan, hnext]
    rfl
  obtain ⟨final, stop, hfinal, hwhole⟩ :=
    Reading.exists_run_of_done? hdone (Reading.run_lower (above.length + 1) lines hbrun) hnext'
  refine readDefinition_eq_ok_iff.mpr (Definition.ofScan_eq_ok_iff.mpr ?_)
  rw [scan_below hcut hmunches hmode, ← hlines]
  refine ⟨?_, final, stop, ?_, hwhole⟩
  · simp [Scan.lower, hbstuck]
  · rw [Reading.run_append hrun]
    exact hfinal

end Interpose
