import Interpose.Definition.Parse
import Interpose.Proofs.Definition.Parts

/-!
# What is read can be printed

Whatever has been read so far is well formed: the complete items can be written, and so can all
parts of the open one. Every token that is legible keeps this, so it holds of every definition that
is read.
-/

namespace Interpose

open Source

variable {mode : Mode} {token : Token} {place : Place}

/-! ## Blocks -/

/-- A body that holds no fence, as every body that is read. -/
def Unfenced (body : Fenced) : Prop := ¬ fence <:+: body.text.toList

/-- What is known of a method before its body can be written. -/
structure MethodHead.Sound (head : MethodHead) : Prop where
  name : isName head.name.toList
  annotations : ∀ note ∈ head.annotations, note.WellFormed
  params : ∀ param ∈ head.params, param.WellFormed

namespace MethodHead.Sound

variable {head : MethodHead}

/-- A parameter joins the head of a method. -/
theorem add {param : Param} (h : head.Sound) (hparam : param.WellFormed) : (head.add param).Sound :=
  ⟨h.name, h.annotations, forall_mem_concat h.params hparam⟩

/-- A result and a body complete a method. -/
theorem method {result : Option TypeExpr} {body : Fenced} (h : head.Sound)
    (hresult : ∀ type ∈ result, type.WellNamed) (hbody : Unfenced body) :
    (head.method result body).WellFormed Unfenced :=
  ⟨h.name, h.params, hresult, hbody, h.annotations⟩

end MethodHead.Sound

namespace ImplDef.WellFormed

variable {Body : Type} {IsBody : Body → Prop} {impl : ImplDef Body}

/-- A base joins a service block. -/
theorem addBase {base : TypeExpr} (h : impl.WellFormed IsBody) (hbase : base.WellNamed) :
    ImplDef.WellFormed IsBody { impl with bases := impl.bases ++ [base] } :=
  ⟨h.name, forall_mem_concat h.bases hbase, h.methods, h.annotations⟩

/-- A method joins a service block. -/
theorem addMethod {method : MethodDef Body} (h : impl.WellFormed IsBody)
    (hmethod : method.WellFormed IsBody) :
    ImplDef.WellFormed IsBody { impl with methods := impl.methods ++ [method] } :=
  ⟨h.name, h.bases, forall_mem_concat h.methods hmethod, h.annotations⟩

end ImplDef.WellFormed

/-! ## Files -/

/-- What has been read of the open item can be written. -/
def Focus.Sound (mode : Mode) : Focus → Prop
  | .items notes => ∀ note ∈ notes, note.WellFormed
  | .importing inner => inner.Sound mode
  | .annotating before inner => (∀ note ∈ before, note.WellFormed) ∧ inner.Sound
  | .implName notes _ => ∀ note ∈ notes, note.WellFormed
  | .implHead impl => impl.WellFormed Unfenced
  | .bases impl => impl.WellFormed Unfenced
  | .base impl inner => impl.WellFormed Unfenced ∧ inner.Sound
  | .basesDone impl => impl.WellFormed Unfenced
  | .methods impl notes => impl.WellFormed Unfenced ∧ ∀ note ∈ notes, note.WellFormed
  | .methodAnnotating impl before inner =>
    impl.WellFormed Unfenced ∧ (∀ note ∈ before, note.WellFormed) ∧ inner.Sound
  | .methodName impl notes => impl.WellFormed Unfenced ∧ ∀ note ∈ notes, note.WellFormed
  | .methodHead impl head => impl.WellFormed Unfenced ∧ head.Sound
  | .params impl head => impl.WellFormed Unfenced ∧ head.Sound
  | .param impl head name _ => impl.WellFormed Unfenced ∧ head.Sound ∧ isName name.toList
  | .paramType impl head name _ inner =>
    impl.WellFormed Unfenced ∧ head.Sound ∧ isName name.toList ∧ inner.Sound
  | .paramsDone impl head => impl.WellFormed Unfenced ∧ head.Sound
  | .result impl head inner => impl.WellFormed Unfenced ∧ head.Sound ∧ inner.Sound

/-- What has been read before a pause can be written. -/
def Pause.Sound : Pause → Prop
  | .items notes => ∀ note ∈ notes, note.WellFormed
  | .bases impl => impl.WellFormed Unfenced
  | .methods impl notes => impl.WellFormed Unfenced ∧ ∀ note ∈ notes, note.WellFormed
  | .params impl head => impl.WellFormed Unfenced ∧ head.Sound
  | .body impl head result =>
    impl.WellFormed Unfenced ∧ head.Sound ∧ ∀ type ∈ result, type.WellNamed

/-- All that has been read can be written. -/
structure Reading.Sound (mode : Mode) (reading : Reading) : Prop where
  imports : ∀ item ∈ reading.imports, IsImport item.text
  impls : ∀ impl ∈ reading.impls, impl.WellFormed Unfenced
  focus : reading.focus.Sound mode

/-- An open item that advances with a legible token stays well formed. -/
theorem Focus.Sound.advances {focus next : Focus} (h : focus.Sound mode)
    (htoken : token.Legible mode) (hnext : Advances place token focus next) :
    next.Sound (.after token) := by
  have hopen : TypeReading.Sound (.start []) := by simp [TypeReading.Sound]
  cases hnext with
  | importing hinner => exact ImportReading.Sound.step h htoken hinner
  | annotating hinner => exact ⟨h.1, h.2.step htoken hinner⟩
  | implName notes span name => exact ⟨htoken.1, by simp, by simp, h⟩
  | openBases impl => exact h
  | openBlock impl => exact ⟨h, by simp⟩
  | closeBases impl => exact h
  | openBase hinner => exact ⟨h, hopen.step htoken hinner⟩
  | base hinner => exact ⟨h.1, h.2.step htoken hinner⟩
  | openMethods impl => exact ⟨h, by simp⟩
  | methodAnnotating hinner => exact ⟨h.1, h.2.1, h.2.2.step htoken hinner⟩
  | methodName impl notes name => exact ⟨h.1, htoken.1, h.2, by simp⟩
  | openParams impl head => exact h
  | openParam impl head name => exact ⟨h.1, h.2, htoken.1⟩
  | closeParams impl head => exact h
  | openType impl head name span => exact ⟨h.1, h.2.1, h.2.2, hopen⟩
  | paramType hinner => exact ⟨h.1, h.2.1, h.2.2.1, h.2.2.2.step htoken hinner⟩
  | openResult impl head => exact ⟨h.1, h.2, hopen⟩
  | result hinner => exact ⟨h.1, h.2.1, h.2.2.step htoken hinner⟩

/-- What is complete when a well-formed item pauses is well formed. -/
theorem Focus.Sound.pauses {focus : Focus} {imports : List Import} {pause : Pause}
    (h : focus.Sound mode) (hpause : focus.Pauses imports pause) :
    (∀ item ∈ imports, IsImport item.text) ∧ pause.Sound := by
  cases hpause with
  | items notes => exact ⟨by simp, h⟩
  | importing hdone =>
    have hitem := ImportReading.Sound.done? h hdone
    exact ⟨by simpa using hitem, by simp [Pause.Sound]⟩
  | annotating hdone => exact ⟨by simp, forall_mem_concat h.1 (h.2.done? hdone)⟩
  | base hdone => exact ⟨by simp, h.1.addBase (h.2.done? hdone)⟩
  | methods impl notes => exact ⟨by simp, h⟩
  | methodAnnotating hdone =>
    exact ⟨by simp, h.1, forall_mem_concat h.2.1 (h.2.2.done? hdone)⟩
  | param impl head name span => exact ⟨by simp, h.1, h.2.1.add ⟨h.2.2, by simp⟩⟩
  | paramType hdone =>
    have htype := h.2.2.2.done? hdone
    exact ⟨by simp, h.1, h.2.1.add ⟨h.2.2.1, by simpa using htype⟩⟩
  | paramsDone impl head => exact ⟨by simp, h.1, h.2, by simp⟩
  | result hdone =>
    have htype := h.2.2.done? hdone
    exact ⟨by simp, h.1, h.2.1, by simpa using htype⟩

namespace Reading

variable {reading next : Reading}

/-- Nothing has been read at the start. -/
theorem sound_start : start.Sound .operator :=
  ⟨by simp [start], by simp [start], by simp [start, Focus.Sound]⟩

/-- Opening another item leaves the complete ones. -/
theorem Sound.go {other : Mode} (h : reading.Sound mode) {focus : Focus}
    (hfocus : focus.Sound other) : (reading.go focus).Sound other := ⟨h.imports, h.impls, hfocus⟩

/-- A token that begins an item leaves what has been read well formed. -/
private theorem Sound.stepItems {other : Mode} {notes : List Annotation} (h : reading.Sound mode)
    (hnotes : ∀ note ∈ notes, note.WellFormed)
    (hstep : reading.stepItems notes token place = some next) : next.Sound other := by
  unfold Reading.stepItems at hstep
  split at hstep
  · obtain rfl := Option.some.inj hstep
    exact h.go trivial
  · obtain rfl := Option.some.inj hstep
    exact h.go trivial
  · obtain rfl := Option.some.inj hstep
    exact h.go ⟨hnotes, trivial⟩
  · obtain rfl := Option.some.inj hstep
    exact h.go hnotes
  · obtain rfl := Option.some.inj hstep
    exact h.go hnotes
  · simp at hstep

/-- A token that begins a method leaves what has been read well formed. -/
private theorem Sound.stepMethods {other : Mode} {impl : OpenImpl} {notes : List Annotation}
    (h : reading.Sound mode) (himpl : impl.WellFormed Unfenced)
    (hnotes : ∀ note ∈ notes, note.WellFormed)
    (hstep : reading.stepMethods impl notes token place = some next) : next.Sound other := by
  unfold Reading.stepMethods at hstep
  split at hstep
  · obtain rfl := Option.some.inj hstep
    exact h.go ⟨himpl, hnotes, trivial⟩
  · obtain rfl := Option.some.inj hstep
    exact h.go ⟨himpl, hnotes⟩
  · obtain rfl := Option.some.inj hstep
    exact ⟨h.imports, forall_mem_concat h.impls himpl, by simp [Focus.Sound]⟩
  · simp at hstep

/-- A token after a base leaves what has been read well formed. -/
private theorem Sound.stepBases {other : Mode} {impl : OpenImpl} (h : reading.Sound mode)
    (himpl : impl.WellFormed Unfenced) (hstep : reading.stepBases impl token = some next) :
    next.Sound other := by
  unfold Reading.stepBases at hstep
  split at hstep
  · obtain rfl := Option.some.inj hstep
    exact h.go himpl
  · obtain rfl := Option.some.inj hstep
    exact h.go himpl
  · simp at hstep

/-- A token after a parameter leaves what has been read well formed. -/
private theorem Sound.stepParams {other : Mode} {impl : OpenImpl} {head : MethodHead}
    (h : reading.Sound mode) (himpl : impl.WellFormed Unfenced) (hhead : head.Sound)
    (hstep : reading.stepParams impl head token = some next) : next.Sound other := by
  unfold Reading.stepParams at hstep
  split at hstep
  · obtain rfl := Option.some.inj hstep
    exact h.go ⟨himpl, hhead⟩
  · obtain rfl := Option.some.inj hstep
    exact h.go ⟨himpl, hhead⟩
  · simp at hstep

/-- A body leaves what has been read well formed. -/
private theorem Sound.stepBody {other : Mode} {impl : OpenImpl} {head : MethodHead}
    {result : Option TypeExpr} (h : reading.Sound mode) (himpl : impl.WellFormed Unfenced)
    (hhead : head.Sound) (hresult : ∀ type ∈ result, type.WellNamed) (htoken : token.Legible mode)
    (hstep : reading.stepBody impl head result token place = some next) : next.Sound other := by
  unfold Reading.stepBody at hstep
  split at hstep
  · obtain rfl := Option.some.inj hstep
    exact h.go ⟨himpl.addMethod (hhead.method hresult htoken), by simp⟩
  · simp at hstep

/-- The token after a pause leaves what has been read well formed. -/
theorem Sound.step_pause {pause : Pause} (h : reading.Sound mode) (hpause : pause.Sound)
    (htoken : token.Legible mode) (hstep : pause.step reading token place = some next) :
    next.Sound (.after token) := by
  cases pause with
  | items notes => exact h.stepItems hpause hstep
  | bases impl => exact h.stepBases hpause hstep
  | methods impl notes => exact h.stepMethods hpause.1 hpause.2 hstep
  | params impl head => exact h.stepParams hpause.1 hpause.2 hstep
  | body impl head result => exact h.stepBody hpause.1 hpause.2.1 hpause.2.2 htoken hstep

/-- Every legible token leaves what has been read well formed. -/
theorem Sound.step (h : reading.Sound mode) (htoken : token.Legible mode)
    (hstep : reading.step token place = some next) : next.Sound (.after token) := by
  rcases step_cases hstep with ⟨focus, hadvance, rfl⟩ | ⟨imports, pause, hpause, hstep⟩
  · exact h.go (h.focus.advances htoken hadvance)
  · obtain ⟨himports, hrest⟩ := h.focus.pauses hpause
    have hmore : (reading.addImports imports).Sound mode :=
      ⟨List.forall_mem_append.mpr ⟨h.imports, himports⟩, h.impls, h.focus⟩
    exact hmore.step_pause hrest htoken hstep

/-- A run over legible tokens ends in a reading that can be written. -/
theorem Sound.run {tokens : List Placed} {last after : Place} (h : reading.Sound mode)
    (htokens : Legible mode (tokens.map (·.token)))
    (hrun : reading.run last tokens = .ok (next, after)) : ∃ mode', next.Sound mode' := by
  induction tokens generalizing reading mode last with
  | nil =>
    obtain ⟨rfl, rfl⟩ := Prod.mk.inj (Except.ok.inj hrun)
    exact ⟨mode, h⟩
  | cons placed tokens ih =>
    obtain ⟨token, place⟩ := placed
    obtain ⟨htoken, hrest⟩ := htokens
    simp only [Reading.run] at hrun
    split at hrun
    · cases hrun
    · rename_i hstep
      exact ih (h.step htoken hstep) hrest hrun

/-- A definition that has been read, its bodies aside. -/
theorem Sound.done? {definition : Definition Fenced} (h : reading.Sound mode)
    (hdone : reading.done? = some definition) :
    (∀ item ∈ definition.imports, IsImport item.text) ∧
      ∀ impl ∈ definition.impls, impl.WellFormed Unfenced := by
  obtain ⟨imports, impls, focus⟩ := reading
  simp only [Reading.done?] at hdone
  split at hdone
  · obtain rfl := Option.some.inj hdone
    exact ⟨h.imports, h.impls⟩
  · obtain ⟨item, hitem, rfl⟩ := Option.map_eq_some_iff.mp hdone
    have himport : IsImport item.text := ImportReading.Sound.done? h.focus hitem
    exact ⟨forall_mem_concat h.imports himport, h.impls⟩
  · simp at hdone

end Reading

/-- A text that is read is read as what can be written, its bodies aside. -/
theorem sound_of_readDefinition {text : List Char} {definition : Definition Fenced}
    (h : readDefinition text = .ok definition) :
    (∀ item ∈ definition.imports, IsImport item.text) ∧
      ∀ impl ∈ definition.impls, impl.WellFormed Unfenced := by
  obtain ⟨_, reading, last, hrun, hdone⟩ :=
    Definition.ofScan_eq_ok_iff.mp (readDefinition_eq_ok_iff.mp h)
  obtain ⟨mode, hsound⟩ := Reading.sound_start.run (legible_scanFrom .operator .start text) hrun
  exact hsound.done? hdone

end Interpose
