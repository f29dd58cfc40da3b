import Interpose.Proofs.Definition.Steps

/-!
# Where a reading stands between tokens

What has been read tells which tokens are looked for next, and so does the token that was read last.
The two agree in every step, so the tokens of a text are looked for as the reading expects them.
-/

namespace Interpose

open Source (Token Mode Place)

/-- What is looked for after some part of a type. -/
def TypeReading.mode : TypeReading → Mode
  | .start _ => .operand
  | .path _ _ => .operator
  | .dot _ _ => .operand
  | .closed _ _ => .operator

/-- What is looked for after some part of an annotation's arguments. -/
def ArgumentReading.mode : ArgumentReading → Mode
  | .start _ _ => .operand
  | .path _ _ _ => .operator
  | .dot _ _ _ => .operand
  | .value _ _ => .operator
  | .closed _ => .operator

/-- What is looked for after some part of an annotation. -/
def AnnotationReading.mode : AnnotationReading → Mode
  | .start _ => .operand
  | .path _ _ => .operator
  | .dot _ _ => .operand
  | .arguments _ _ inner => inner.mode

/-- What is looked for after some part of an import. -/
def ImportReading.mode : ImportReading → Mode
  | .plain => .operand
  | .plainPath _ => .operator
  | .plainDot _ => .operand
  | .plainAs _ => .operand
  | .plainDone _ _ => .operator
  | .source => .source
  | .sourceDots _ => .sourceRest
  | .sourcePath _ _ => .operator
  | .sourceDot _ _ => .operand
  | .pick _ _ => .operand
  | .picked _ _ _ => .operator
  | .pickAs _ _ _ => .operand
  | .pickedAs _ _ => .operator

/-- What is looked for within the open item. -/
def Focus.mode : Focus → Mode
  | .items _ => .operator
  | .importing inner => inner.mode
  | .annotating _ inner => inner.mode
  | .implName _ _ => .operand
  | .implHead _ => .operator
  | .bases _ => .operand
  | .base _ inner => inner.mode
  | .basesDone _ => .operator
  | .methods _ _ => .operator
  | .methodAnnotating _ _ inner => inner.mode
  | .methodName _ _ => .operand
  | .methodHead _ _ => .operator
  | .params _ _ => .operand
  | .param _ _ _ _ => .operator
  | .paramType _ _ _ _ inner => inner.mode
  | .paramsDone _ _ => .operator
  | .result _ _ inner => inner.mode

variable {token : Token} {place : Place}

/-! ## Parts of items -/

/-- A type looks for the tokens that follow the one that was read. -/
theorem TypeReading.mode_step {inner next : TypeReading} (h : inner.step token place = some next) :
    next.mode = .after token := by
  cases inner with
  | _ =>
    simp only [step] at h
    split at h <;> cases h <;> rfl

theorem ArgumentReading.mode_close (args : List Argument) (outer : List OpenCall) :
    (close args outer).mode = .operator := by
  cases outer <;> rfl

/-- Arguments look for the tokens that follow the one that was read. -/
theorem ArgumentReading.mode_step {inner next : ArgumentReading}
    (h : inner.step token place = some next) : next.mode = .after token := by
  cases inner with
  | start outer args =>
    simp only [step] at h
    split at h
    case h_4 =>
      obtain rfl := Option.some.inj h
      exact mode_close args outer
    all_goals
      cases h
      try rfl
  | path outer args p =>
    simp only [step] at h
    split at h
    case h_4 =>
      obtain rfl := Option.some.inj h
      exact mode_close _ outer
    all_goals
      cases h
      try rfl
  | dot outer args p =>
    simp only [step] at h
    split at h <;> cases h
    rfl
  | value outer args =>
    simp only [step] at h
    split at h
    · obtain rfl := Option.some.inj h
      rfl
    · obtain rfl := Option.some.inj h
      exact mode_close args outer
    · simp at h
  | closed args => simp [step] at h

/-- An annotation looks for the tokens that follow the one that was read. -/
theorem AnnotationReading.mode_step {inner next : AnnotationReading}
    (h : inner.step token place = some next) : next.mode = .after token := by
  cases inner with
  | arguments span p inner =>
    obtain ⟨more, hmore, rfl⟩ := Option.map_eq_some_iff.mp h
    exact ArgumentReading.mode_step hmore
  | _ =>
    simp only [step] at h
    split at h <;> cases h <;> rfl

/-- An import looks for the tokens that follow the one that was read. -/
theorem ImportReading.mode_step {inner next : ImportReading} (h : inner.step token = some next) :
    next.mode = .after token := by
  cases advances_of_step h <;> rfl

/-! ## Items -/

/-- An item that advances looks for the tokens that follow the one that was read. -/
theorem Focus.Advances.mode_eq {focus next : Focus} (h : Advances place token focus next) :
    next.mode = .after token := by
  cases h with
  | importing hinner => exact ImportReading.mode_step hinner
  | annotating hinner => exact AnnotationReading.mode_step hinner
  | methodAnnotating hinner => exact AnnotationReading.mode_step hinner
  | openBase hinner => exact TypeReading.mode_step hinner
  | base hinner => exact TypeReading.mode_step hinner
  | paramType hinner => exact TypeReading.mode_step hinner
  | result hinner => exact TypeReading.mode_step hinner
  | _ => rfl

namespace Reading

/-- What a reading looks for next. -/
def mode (reading : Reading) : Mode := reading.focus.mode

variable {reading next : Reading}

/-- After a token that begins an item, the tokens that follow it are looked for. -/
theorem mode_stepItems {notes : List Annotation}
    (h : reading.stepItems notes token place = some next) : next.mode = .after token := by
  unfold stepItems at h
  split at h <;> cases h <;> rfl

/-- After a token that begins a method, the tokens that follow it are looked for. -/
theorem mode_stepMethods {impl : OpenImpl} {notes : List Annotation}
    (h : reading.stepMethods impl notes token place = some next) : next.mode = .after token := by
  unfold stepMethods at h
  split at h <;> cases h <;> rfl

/-- After a token behind a base, the tokens that follow it are looked for. -/
theorem mode_stepBases {impl : OpenImpl} (h : reading.stepBases impl token = some next) :
    next.mode = .after token := by
  unfold stepBases at h
  split at h <;> cases h <;> rfl

/-- After a token behind a parameter, the tokens that follow it are looked for. -/
theorem mode_stepParams {impl : OpenImpl} {head : MethodHead}
    (h : reading.stepParams impl head token = some next) : next.mode = .after token := by
  unfold stepParams at h
  split at h <;> cases h <;> rfl

/-- After a body, the tokens that follow it are looked for. -/
theorem mode_stepBody {impl : OpenImpl} {head : MethodHead} {result : Option TypeExpr}
    (h : reading.stepBody impl head result token place = some next) : next.mode = .after token := by
  unfold stepBody at h
  split at h <;> cases h
  rfl

/-- After a pause, a step looks for the tokens that follow the one that was read. -/
theorem mode_pause {settled : Reading} {pause : Pause}
    (h : pause.step settled token place = some next) : next.mode = .after token := by
  cases pause with
  | items notes => exact mode_stepItems h
  | bases impl => exact mode_stepBases h
  | methods impl notes => exact mode_stepMethods h
  | params impl head => exact mode_stepParams h
  | body impl head result => exact mode_stepBody h

/-- A step looks for the tokens that follow the one that was read. -/
theorem mode_step (h : reading.step token place = some next) : next.mode = .after token := by
  rcases step_cases h with ⟨focus, hadvance, rfl⟩ | ⟨imports, pause, -, hstep⟩
  · exact hadvance.mode_eq
  · exact mode_pause hstep

end Reading

end Interpose
