import Interpose.Proofs.Definition.Kept
import Interpose.Proofs.Source.Returns

/-!
# Definition files with carriage returns

A definition file reads the same with carriage returns before its newlines. The carriage returns
reach a definition in its bodies only, and there they are blanks at the ends of lines, which go when
the bodies are cleaned. A refused text is refused for the same reason, at the same line and column.
-/

namespace Interpose

open Source Text

/-! ## Readings with other bodies -/

section

variable (f : String → String)

/-- The body with its text rewritten. -/
def Fenced.mapText (body : Fenced) : Fenced := { body with text := f body.text }

/-- The method with its body rewritten. -/
def MethodDef.mapText (method : MethodDef Fenced) : MethodDef Fenced :=
  { method with body := method.body.mapText f }

/-- The block with its bodies rewritten. -/
def ImplDef.mapText (impl : ImplDef Fenced) : ImplDef Fenced :=
  { impl with methods := impl.methods.map (MethodDef.mapText f) }

/-- The definition with its bodies rewritten. -/
def Definition.mapText (definition : Definition Fenced) : Definition Fenced :=
  { definition with impls := definition.impls.map (ImplDef.mapText f) }

/-- The open item with the bodies that it holds rewritten. -/
def Focus.mapText : Focus → Focus
  | .items notes => .items notes
  | .importing reading => .importing reading
  | .annotating before reading => .annotating before reading
  | .implName notes span => .implName notes span
  | .implHead impl => .implHead (impl.mapText f)
  | .bases impl => .bases (impl.mapText f)
  | .base impl reading => .base (impl.mapText f) reading
  | .basesDone impl => .basesDone (impl.mapText f)
  | .methods impl notes => .methods (impl.mapText f) notes
  | .methodAnnotating impl before reading => .methodAnnotating (impl.mapText f) before reading
  | .methodName impl notes => .methodName (impl.mapText f) notes
  | .methodHead impl head => .methodHead (impl.mapText f) head
  | .params impl head => .params (impl.mapText f) head
  | .param impl head name span => .param (impl.mapText f) head name span
  | .paramType impl head name span reading => .paramType (impl.mapText f) head name span reading
  | .paramsDone impl head => .paramsDone (impl.mapText f) head
  | .result impl head reading => .result (impl.mapText f) head reading

/-- The pause with the bodies that it holds rewritten. -/
def Pause.mapText : Pause → Pause
  | .items notes => .items notes
  | .bases impl => .bases (impl.mapText f)
  | .methods impl notes => .methods (impl.mapText f) notes
  | .params impl head => .params (impl.mapText f) head
  | .body impl head result => .body (impl.mapText f) head result

namespace Reading

/-- The reading with the bodies that it holds rewritten. -/
def mapText (reading : Reading) : Reading where
  imports := reading.imports
  impls := reading.impls.map (ImplDef.mapText f)
  focus := reading.focus.mapText f

@[simp] theorem go_mapText (reading : Reading) (focus : Focus) :
    (reading.mapText f).go (focus.mapText f) = (reading.go focus).mapText f := rfl

end Reading

end

/-! ## Steps -/

variable {f : String → String} {token : Token} {place : Place}

/-- No type goes on with a body. -/
theorem TypeReading.step_mapBody (reading : TypeReading) :
    reading.step (token.mapBody f) place = reading.step token place := by
  cases token with
  | body text => cases reading <;> rfl
  | _ => rfl

/-- No annotation goes on with a body. -/
theorem AnnotationReading.step_mapBody (reading : AnnotationReading) :
    reading.step (token.mapBody f) place = reading.step token place := by
  cases token with
  | body text =>
    cases reading with
    | arguments span path reading => cases reading <;> rfl
    | _ => rfl
  | _ => rfl

/-- No import goes on with a body. -/
theorem ImportReading.step_mapBody (reading : ImportReading) :
    reading.step (token.mapBody f) = reading.step token := by
  cases token with
  | body text => cases reading <;> rfl
  | _ => rfl

namespace Reading

/-- Beginning an item commutes with rewriting bodies. -/
theorem stepItems_mapText (reading : Reading) (notes : List Annotation) :
    (reading.mapText f).stepItems notes (token.mapBody f) place =
      (reading.stepItems notes token place).map (mapText f) := by
  cases token with
  | word keyword => cases keyword <;> cases notes <;> rfl
  | mark mark => cases mark <;> rfl
  | _ => rfl

/-- Beginning a method commutes with rewriting bodies. -/
theorem stepMethods_mapText (reading : Reading) (impl : OpenImpl) (notes : List Annotation) :
    (reading.mapText f).stepMethods (impl.mapText f) notes (token.mapBody f) place =
      (reading.stepMethods impl notes token place).map (mapText f) := by
  cases token with
  | word keyword => cases keyword <;> rfl
  | mark mark =>
    cases mark with
    | closeBrace => cases notes <;> simp [stepMethods, mapText, Token.mapBody, Focus.mapText]
    | _ => rfl
  | _ => rfl

/-- Going on after a base commutes with rewriting bodies. -/
theorem stepBases_mapText (reading : Reading) (impl : OpenImpl) :
    (reading.mapText f).stepBases (impl.mapText f) (token.mapBody f) =
      (reading.stepBases impl token).map (mapText f) := by
  cases token with
  | mark mark => cases mark <;> rfl
  | _ => rfl

/-- Going on after a parameter commutes with rewriting bodies. -/
theorem stepParams_mapText (reading : Reading) (impl : OpenImpl) (head : MethodHead) :
    (reading.mapText f).stepParams (impl.mapText f) head (token.mapBody f) =
      (reading.stepParams impl head token).map (mapText f) := by
  cases token with
  | mark mark => cases mark <;> rfl
  | _ => rfl

/-- Reading a body commutes with rewriting bodies. -/
theorem stepBody_mapText (reading : Reading) (impl : OpenImpl) (head : MethodHead)
    (result : Option TypeExpr) :
    (reading.mapText f).stepBody (impl.mapText f) head result (token.mapBody f) place =
      (reading.stepBody impl head result token place).map (mapText f) := by
  cases token with
  | body text =>
    simp [stepBody, Token.mapBody, ← go_mapText, Focus.mapText, ImplDef.mapText, MethodDef.mapText,
      MethodHead.method, Fenced.mapText]
  | _ => rfl

/-- Taking the token after a pause commutes with rewriting bodies. -/
theorem pause_step_mapText (reading : Reading) (pause : Pause) :
    (pause.mapText f).step (reading.mapText f) (token.mapBody f) place =
      (pause.step reading token place).map (mapText f) := by
  cases pause with
  | items notes => exact stepItems_mapText reading notes
  | bases impl => exact stepBases_mapText reading impl
  | methods impl notes => exact stepMethods_mapText reading impl notes
  | params impl head => exact stepParams_mapText reading impl head
  | body impl head result => exact stepBody_mapText reading impl head result

end Reading

/-- Advancing the open item commutes with rewriting bodies. -/
theorem Focus.advance_mapText (token : Token) (place : Place) (focus : Focus) :
    (focus.mapText f).advance (token.mapBody f) place =
      (focus.advance token place).map (mapText f) := by
  cases focus with
  | importing inner =>
    simp [advance, mapText, ImportReading.step_mapBody, Function.comp_def]
  | annotating before inner =>
    simp [advance, mapText, AnnotationReading.step_mapBody, Function.comp_def]
  | methodAnnotating impl before inner =>
    simp [advance, mapText, AnnotationReading.step_mapBody, Function.comp_def]
  | base impl inner => simp [advance, mapText, TypeReading.step_mapBody, Function.comp_def]
  | paramType impl head name span inner =>
    simp [advance, mapText, TypeReading.step_mapBody, Function.comp_def]
  | result impl head inner => simp [advance, mapText, TypeReading.step_mapBody, Function.comp_def]
  | _ =>
    cases token with
    | mark mark => cases mark <;> rfl
    | _ => rfl

/-- Reaching a pause commutes with rewriting bodies. -/
theorem Focus.pause?_mapText (focus : Focus) :
    (focus.mapText f).pause? = focus.pause?.map (Prod.map id (Pause.mapText f)) := by
  cases focus with
  | importing inner | annotating _ inner | methodAnnotating _ _ inner | base _ inner
  | paramType _ _ _ _ inner | result _ _ inner =>
    simp only [pause?, mapText]
    cases inner.done? <;> rfl
  | _ => rfl

namespace Reading

/-- Reading a token commutes with rewriting bodies. -/
theorem step_mapText (token : Token) (place : Place) (reading : Reading) :
    (reading.mapText f).step (token.mapBody f) place =
      (reading.step token place).map (mapText f) := by
  have hfocus : (reading.mapText f).focus = reading.focus.mapText f := rfl
  rw [step_eq, step_eq, hfocus, Focus.advance_mapText, Focus.pause?_mapText]
  cases reading.focus.advance token place with
  | some focus => rfl
  | none =>
    cases reading.focus.pause? with
    | none => rfl
    | some paused => exact pause_step_mapText (reading.addImports paused.1) paused.2

/-- A definition is complete with other bodies when it is complete. -/
theorem done?_mapText (reading : Reading) :
    (reading.mapText f).done? = reading.done?.map (Definition.mapText f) := by
  have hfocus' : (reading.mapText f).focus = reading.focus.mapText f := rfl
  cases hfocus : reading.focus with
  | items notes =>
    simp only [done?, hfocus', hfocus, Focus.mapText]
    cases notes <;> rfl
  | importing inner =>
    simp only [done?, hfocus', hfocus, Focus.mapText]
    cases inner.done? <;> rfl
  | _ =>
    simp only [done?, hfocus', hfocus, Focus.mapText]
    rfl

/-! ## Runs -/

/-- Where a token stands counts by its line and its column only. -/
theorem step_withReturns (token : Token) (place : Place) (reading : Reading) :
    reading.step token place.withReturns = reading.step token place := rfl

/-- Tokens are read with carriage returns as they are read without. -/
theorem run_withReturns (last : Place) (reading : Reading) (tokens : List Placed) :
    (reading.mapText withReturns).run last.withReturns (tokens.map Placed.withReturns) =
      ((reading.run last tokens).map fun found =>
        (found.1.mapText withReturns, found.2.withReturns)).mapError Place.withReturns := by
  induction tokens generalizing reading last with
  | nil => rfl
  | cons placed tokens ih =>
    obtain ⟨token, place⟩ := placed
    rw [List.map_cons, Placed.withReturns]
    simp only [run, step_withReturns, step_mapText]
    cases reading.step token place with
    | none => rfl
    | some next => exact ih place next

end Reading

/-- What the tokens of a text spell with carriage returns is what they spell without. -/
theorem Definition.ofScan_withReturns (scan : Scan) : ofScan scan.withReturns =
    ((ofScan scan).map (mapText withReturns)).mapError Place.withReturns := by
  have hrun := Reading.run_withReturns .start .start scan.tokens
  have hstart : Reading.start.mapText withReturns = .start := rfl
  have hplace : Place.start.withReturns = .start := rfl
  rw [hstart, hplace] at hrun
  unfold ofScan
  rw [Scan.withReturns, hrun]
  cases Reading.start.run .start scan.tokens with
  | error place => rfl
  | ok found =>
    obtain ⟨reading, last⟩ := found
    have hdone := Reading.done?_mapText (f := withReturns) reading
    cases hstuck : scan.stuck with
    | some place => simp [Except.map, Except.mapError]
    | none =>
      cases hread : reading.done? with
      | none => simp [Except.map, Except.mapError, hdone, hread]
      | some definition => simp [Except.map, Except.mapError, hdone, hread]

/-! ## Cleaning -/

/-- A body is cleaned by its lines without the blanks at their ends. -/
theorem Fenced.clean_eq_of_trimmed {body other : Fenced} (hspan : body.span = other.span)
    (h : (splitLines body.text.toList).map trimEnd = (splitLines other.text.toList).map trimEnd) :
    body.clean = other.clean := by
  have hfence : ∀ lines, textOnFence (lines.map trimEnd) = textOnFence lines := by
    intro lines
    cases lines with
    | nil => rfl
    | cons line rest => simp [textOnFence, isBlankLine_trimEnd, Function.comp_def]
  have hfirst : ∀ lines : List (List Char),
      trim ((lines.map trimEnd).headD []) = trim (lines.headD []) := by
    intro lines
    cases lines with
    | nil => rfl
    | cons line rest => exact trim_trimEnd line
  have hkept : ∀ lines, keptLines lines = removeMargin (trimBlankLines (lines.map trimEnd)) := by
    intro lines
    rw [keptLines, trimBlankLines_map isBlankLine_trimEnd]
  simp only [clean]
  rw [← hfence, ← hfence (splitLines other.text.toList), ← hfirst,
    ← hfirst (splitLines other.text.toList), hkept, hkept, h, hspan]

/-- Nothing is left of the carriage returns in a body when it is cleaned. -/
theorem Fenced.clean_withReturns (body : Fenced) :
    (body.mapText withReturns).clean = body.clean := by
  have hlines : (splitLines (body.mapText withReturns).text.toList).map trimEnd =
      (splitLines body.text.toList).map trimEnd := by
    rw [mapText, toList_withReturns, map_trimEnd_splitLines_addReturns]
  exact clean_eq_of_trimmed rfl hlines

section

variable {f : String → String} (h : ∀ body : Fenced, (body.mapText f).clean = body.clean)
include h

theorem MethodDef.clean_mapText (method : MethodDef Fenced) :
    (method.mapText f).clean = method.clean := by
  rw [clean, mapText, h]
  rfl

theorem ImplDef.clean_mapText (impl : ImplDef Fenced) : (impl.mapText f).clean = impl.clean := by
  have hmethods : (impl.methods.map (MethodDef.mapText f)).mapM MethodDef.clean =
      impl.methods.mapM MethodDef.clean := by
    rw [List.mapM_map]
    exact congrArg (List.mapM · impl.methods) (funext (MethodDef.clean_mapText h))
  rw [clean, mapText, hmethods]
  rfl

/-- A definition whose bodies are cleaned to the same text is cleaned to the same definition. -/
theorem Definition.clean_mapText (definition : Definition Fenced) :
    (definition.mapText f).clean = definition.clean := by
  have himpls : (definition.impls.map (ImplDef.mapText f)).mapM ImplDef.clean =
      definition.impls.mapM ImplDef.clean := by
    rw [List.mapM_map]
    exact congrArg (List.mapM · definition.impls) (funext (ImplDef.clean_mapText h))
  rw [clean, mapText, himpls]
  rfl

end

/-! ## Texts -/

/-- A text with carriage returns is refused at the same line and column as the text without, or has
the same parse. -/
theorem parse_withReturns_cases (text : String) :
    (∃ span help other, parse text = .error (.malformed span help) ∧
      parse (withReturns text) = .error (.malformed span other)) ∨
    parse (withReturns text) = parse text := by
  have hscan : Definition.ofScan (scan (withReturns text).toList) =
      ((Definition.ofScan (scan text.toList)).map (Definition.mapText withReturns)).mapError
        Place.withReturns := by
    rw [toList_withReturns, scan_addReturns, Definition.ofScan_withReturns]
  cases hread : Definition.ofScan (scan text.toList) with
  | error place =>
    rw [hread] at hscan
    refine .inl ⟨.ofPlace place, context text.toList place.offset,
      context (withReturns text).toList place.withReturns.offset, ?_, ?_⟩
    · rw [parse, readDefinition, hread]
      rfl
    · rw [parse, readDefinition, hscan]
      rfl
  | ok read =>
    rw [hread] at hscan
    have hreturns : readDefinition (withReturns text).toList = .ok (read.mapText withReturns) :=
      readDefinition_eq_ok_iff.mpr hscan
    have hplain := readDefinition_eq_ok_iff.mpr hread
    have hclean := Definition.clean_mapText Fenced.clean_withReturns read
    right
    rw [parse, parse, hreturns, hplain]
    change ((read.mapText withReturns).clean >>= _) = (read.clean >>= _)
    rw [hclean]

/-- Files mean the same with carriage returns. The text of a definition file and the text with a
carriage return before each newline stand for the same definition, spans and bodies included, and
become the same module, or both are refused for the same reason, with the same message at the same
line and column. -/
theorem parse_withReturns (text : String) :
    (∃ definition, parse text = .ok definition ∧ parse (withReturns text) = .ok definition ∧
      ∀ support, generate support (withReturns text) = generate support text) ∨
    ∃ fault other, parse text = .error fault ∧ parse (withReturns text) = .error other ∧
      other.kind = fault.kind ∧ other.diagnostic.text = fault.diagnostic.text ∧
      other.diagnostic.located = fault.diagnostic.located ∧
      other.diagnostic.span = fault.diagnostic.span := by
  rcases parse_withReturns_cases text with ⟨span, help, other, hparse, hreturns⟩ | hsame
  · exact .inr ⟨_, _, hparse, hreturns, rfl, rfl, rfl, rfl⟩
  · cases hparse : parse text with
    | error fault => exact .inr ⟨fault, fault, rfl, hsame.trans hparse, rfl, rfl, rfl, rfl⟩
    | ok definition =>
      refine .inl ⟨definition, rfl, hsame.trans hparse, fun support => ?_⟩
      rw [generate, ServiceFile.ofText, hsame, ← ServiceFile.ofText, ← generate]

end Interpose
