import Interpose.Definition.Parse
import Interpose.Proofs.Definition.Spans
import Interpose.Proofs.Definition.Steps

/-!
# Reading at other places

The states of a reading carry spans. Reading a token commutes with changing the spans of what has
been read, when the place of the token is changed alike. So what is read from tokens depends on
where they stand in its spans only.
-/

namespace Interpose

open Source (Token Place Placed)

variable (f : Span → Span)

/-! ## States -/

/-- The path with its span changed. -/
def Path.mapSpan (path : Path) : Path := ⟨f path.span, path.names⟩

@[simp] theorem Path.text_mapSpan (path : Path) : (path.mapSpan f).text = path.text := rfl

@[simp] theorem Path.mapSpan_add (path : Path) (name : String) :
    (path.mapSpan f).add name = (path.add name).mapSpan f := rfl

@[simp] theorem Path.type_mapSpan (path : Path) :
    (path.mapSpan f).type = path.type.mapSpan f := by
  simp [Path.type, Path.mapSpan, Path.text]

@[simp] theorem Path.argument_mapSpan (path : Path) :
    (path.mapSpan f).argument = path.argument.mapSpan f := rfl

/-- The open type with every span changed. -/
def OpenType.mapSpan (outer : OpenType) : OpenType :=
  ⟨outer.path.mapSpan f, outer.args.map (·.mapSpan f)⟩

@[simp] theorem OpenType.mapSpan_add (outer : OpenType) (arg : TypeExpr) :
    (outer.mapSpan f).add (arg.mapSpan f) = (outer.add arg).mapSpan f := by
  simp [OpenType.add, OpenType.mapSpan]

@[simp] theorem OpenType.mapSpan_close (outer : OpenType) (arg : TypeExpr) :
    (outer.mapSpan f).close (arg.mapSpan f) = (outer.close arg).mapSpan f := by
  simp [OpenType.close, OpenType.mapSpan, Path.mapSpan, Path.text]

/-- The reading of a type with every span changed. -/
def TypeReading.mapSpan : TypeReading → TypeReading
  | .start outer => .start (outer.map (·.mapSpan f))
  | .path outer p => .path (outer.map (·.mapSpan f)) (p.mapSpan f)
  | .dot outer p => .dot (outer.map (·.mapSpan f)) (p.mapSpan f)
  | .closed outer type => .closed (outer.map (·.mapSpan f)) (type.mapSpan f)

/-- The open call with every span changed. -/
def OpenCall.mapSpan (call : OpenCall) : OpenCall :=
  ⟨call.path.mapSpan f, call.before.map (·.mapSpan f)⟩

@[simp] theorem Argument.listText_mapSpan (args : List Argument) :
    listText (args.map (·.mapSpan f)) = listText args := by
  simp [listText, Function.comp_def, Argument.mapSpan]

@[simp] theorem OpenCall.mapSpan_close (call : OpenCall) (args : List Argument) :
    (call.mapSpan f).close (args.map (·.mapSpan f)) = (call.close args).map (·.mapSpan f) := by
  rw [OpenCall.close, Argument.listText_mapSpan, OpenCall.close, List.map_append]
  rfl

/-- The reading of arguments with every span changed. -/
def ArgumentReading.mapSpan : ArgumentReading → ArgumentReading
  | .start outer args => .start (outer.map (·.mapSpan f)) (args.map (·.mapSpan f))
  | .path outer args p => .path (outer.map (·.mapSpan f)) (args.map (·.mapSpan f)) (p.mapSpan f)
  | .dot outer args p => .dot (outer.map (·.mapSpan f)) (args.map (·.mapSpan f)) (p.mapSpan f)
  | .value outer args => .value (outer.map (·.mapSpan f)) (args.map (·.mapSpan f))
  | .closed args => .closed (args.map (·.mapSpan f))

/-- The reading of an annotation with every span changed. -/
def AnnotationReading.mapSpan : AnnotationReading → AnnotationReading
  | .start span => .start (f span)
  | .path span p => .path (f span) (p.mapSpan f)
  | .dot span p => .dot (f span) (p.mapSpan f)
  | .arguments span p reading => .arguments (f span) (p.mapSpan f) (reading.mapSpan f)

/-- The body with its span changed. -/
def Fenced.mapSpan (body : Fenced) : Fenced := { body with span := f body.span }

/-- The open block with every span changed. -/
abbrev OpenImpl.mapSpan (impl : OpenImpl) : OpenImpl := ImplDef.mapSpan f (Fenced.mapSpan f) impl

/-- The head of a method with every span changed. -/
def MethodHead.mapSpan (head : MethodHead) : MethodHead where
  name := head.name
  span := f head.span
  annotations := head.annotations.map (·.mapSpan f)
  params := head.params.map (·.mapSpan f)

@[simp] theorem MethodHead.mapSpan_add (head : MethodHead) (param : Param) :
    (head.mapSpan f).add (param.mapSpan f) = (head.add param).mapSpan f := by
  simp [MethodHead.add, MethodHead.mapSpan]

/-- The open item with every span changed. -/
def Focus.mapSpan : Focus → Focus
  | .items notes => .items (notes.map (·.mapSpan f))
  | .importing reading => .importing reading
  | .annotating before reading => .annotating (before.map (·.mapSpan f)) (reading.mapSpan f)
  | .implName notes span => .implName (notes.map (·.mapSpan f)) (f span)
  | .implHead impl => .implHead (OpenImpl.mapSpan f impl)
  | .bases impl => .bases (OpenImpl.mapSpan f impl)
  | .base impl reading => .base (OpenImpl.mapSpan f impl) (reading.mapSpan f)
  | .basesDone impl => .basesDone (OpenImpl.mapSpan f impl)
  | .methods impl notes => .methods (OpenImpl.mapSpan f impl) (notes.map (·.mapSpan f))
  | .methodAnnotating impl before reading =>
    .methodAnnotating (OpenImpl.mapSpan f impl) (before.map (·.mapSpan f)) (reading.mapSpan f)
  | .methodName impl notes => .methodName (OpenImpl.mapSpan f impl) (notes.map (·.mapSpan f))
  | .methodHead impl head => .methodHead (OpenImpl.mapSpan f impl) (head.mapSpan f)
  | .params impl head => .params (OpenImpl.mapSpan f impl) (head.mapSpan f)
  | .param impl head name span =>
    .param (OpenImpl.mapSpan f impl) (head.mapSpan f) name (f span)
  | .paramType impl head name span reading =>
    .paramType (OpenImpl.mapSpan f impl) (head.mapSpan f) name (f span) (reading.mapSpan f)
  | .paramsDone impl head => .paramsDone (OpenImpl.mapSpan f impl) (head.mapSpan f)
  | .result impl head reading =>
    .result (OpenImpl.mapSpan f impl) (head.mapSpan f) (reading.mapSpan f)

/-- The reading with every span changed. -/
def Reading.mapSpan (reading : Reading) : Reading where
  imports := reading.imports
  impls := reading.impls.map (OpenImpl.mapSpan f)
  focus := reading.focus.mapSpan f

/-- The pause with every span changed. -/
def Pause.mapSpan : Pause → Pause
  | .items notes => .items (notes.map (·.mapSpan f))
  | .bases impl => .bases (OpenImpl.mapSpan f impl)
  | .methods impl notes => .methods (OpenImpl.mapSpan f impl) (notes.map (·.mapSpan f))
  | .params impl head => .params (OpenImpl.mapSpan f impl) (head.mapSpan f)
  | .body impl head result =>
    .body (OpenImpl.mapSpan f impl) (head.mapSpan f) (result.map (·.mapSpan f))

@[simp] theorem Reading.go_mapSpan (reading : Reading) (focus : Focus) :
    (reading.mapSpan f).go (focus.mapSpan f) = (reading.go focus).mapSpan f := rfl

/-! ## Steps -/

variable {f} {place other : Place} (h : f (.ofPlace place) = .ofPlace other)
include h

/-- Within a type, reading a token commutes with changing spans. -/
theorem TypeReading.step_mapSpan (token : Token) (reading : TypeReading) :
    (reading.mapSpan f).step token other = (reading.step token place).map (·.mapSpan f) := by
  cases reading with
  | start outer => cases token <;> simp [step, mapSpan, Path.mapSpan, h]
  | dot outer p => cases token <;> simp [step, mapSpan]
  | path outer p =>
    cases token with
    | mark mark =>
      have hopen : OpenType.mapSpan f ⟨p, []⟩ = ⟨p.mapSpan f, []⟩ := rfl
      cases mark <;> cases outer <;> simp [step, mapSpan, hopen]
    | _ => rfl
  | closed outer type =>
    cases token with
    | mark mark => cases mark <;> cases outer <;> simp [step, mapSpan]
    | _ => rfl

/-- Within arguments, reading a token commutes with changing spans. -/
theorem ArgumentReading.step_mapSpan (token : Token) (reading : ArgumentReading) :
    (reading.mapSpan f).step token other = (reading.step token place).map (·.mapSpan f) := by
  have hclose : ∀ args outer, close (args.map (·.mapSpan f)) (outer.map (OpenCall.mapSpan f)) =
      (close args outer).mapSpan f := by
    intro args outer
    cases outer <;> simp [close, mapSpan]
  cases reading with
  | start outer args =>
    cases token with
    | mark mark => cases mark <;> simp [step, mapSpan, hclose]
    | _ => simp [step, mapSpan, Path.mapSpan, Argument.mapSpan, h]
  | path outer args p =>
    have hlast : close (args.map (·.mapSpan f) ++ [p.argument.mapSpan f])
        (outer.map (OpenCall.mapSpan f)) = (close (args ++ [p.argument]) outer).mapSpan f := by
      rw [← hclose, List.map_append, List.map_singleton]
    have hopen : OpenCall.mapSpan f ⟨p, args⟩ = ⟨p.mapSpan f, args.map (·.mapSpan f)⟩ := rfl
    cases token with
    | mark mark => cases mark <;> simp [step, mapSpan, hopen, hlast]
    | _ => rfl
  | dot outer args p => cases token <;> simp [step, mapSpan]
  | value outer args =>
    cases token with
    | mark mark => cases mark <;> simp [step, mapSpan, hclose]
    | _ => rfl
  | closed args => rfl

/-- Within an annotation, reading a token commutes with changing spans. -/
theorem AnnotationReading.step_mapSpan (token : Token) (reading : AnnotationReading) :
    (reading.mapSpan f).step token other = (reading.step token place).map (·.mapSpan f) := by
  cases reading with
  | start span => cases token <;> simp [step, mapSpan, Path.mapSpan, h]
  | path span p =>
    cases token with
    | mark mark => cases mark <;> simp [step, mapSpan, ArgumentReading.mapSpan]
    | _ => rfl
  | dot span p => cases token <;> simp [step, mapSpan]
  | arguments span p reading =>
    simp [step, mapSpan, ArgumentReading.step_mapSpan h, Function.comp_def]

namespace Reading

/-- Beginning an item commutes with changing spans. -/
theorem stepItems_mapSpan (reading : Reading) (notes : List Annotation) (token : Token) :
    (reading.mapSpan f).stepItems (notes.map (·.mapSpan f)) token other =
      (reading.stepItems notes token place).map (mapSpan f) := by
  cases token with
  | word keyword =>
    cases keyword <;> cases notes <;> simp [stepItems, ← go_mapSpan, Focus.mapSpan, h]
    all_goals rfl
  | mark mark =>
    cases mark <;> simp [stepItems, ← go_mapSpan, Focus.mapSpan, AnnotationReading.mapSpan, h]
  | _ => rfl

/-- Beginning a method commutes with changing spans. -/
theorem stepMethods_mapSpan (reading : Reading) (impl : OpenImpl) (notes : List Annotation)
    (token : Token) :
    (reading.mapSpan f).stepMethods (OpenImpl.mapSpan f impl) (notes.map (·.mapSpan f)) token
      other = (reading.stepMethods impl notes token place).map (mapSpan f) := by
  cases token with
  | word keyword => cases keyword <;> simp [stepMethods, ← go_mapSpan, Focus.mapSpan]
  | mark mark =>
    cases mark with
    | «at» => simp [stepMethods, ← go_mapSpan, Focus.mapSpan, AnnotationReading.mapSpan, h]
    | closeBrace => cases notes <;> simp [stepMethods, mapSpan, Focus.mapSpan]
    | _ => rfl
  | _ => rfl

omit h in
/-- Going on after a base commutes with changing spans. -/
theorem stepBases_mapSpan (reading : Reading) (impl : OpenImpl) (token : Token) :
    (reading.mapSpan f).stepBases (OpenImpl.mapSpan f impl) token =
      (reading.stepBases impl token).map (mapSpan f) := by
  cases token with
  | mark mark => cases mark <;> simp [stepBases, ← go_mapSpan, Focus.mapSpan]
  | _ => rfl

omit h in
/-- Going on after a parameter commutes with changing spans. -/
theorem stepParams_mapSpan (reading : Reading) (impl : OpenImpl) (head : MethodHead)
    (token : Token) :
    (reading.mapSpan f).stepParams (OpenImpl.mapSpan f impl) (head.mapSpan f) token =
      (reading.stepParams impl head token).map (mapSpan f) := by
  cases token with
  | mark mark => cases mark <;> simp [stepParams, ← go_mapSpan, Focus.mapSpan]
  | _ => rfl

/-- Reading a body commutes with changing spans. -/
theorem stepBody_mapSpan (reading : Reading) (impl : OpenImpl) (head : MethodHead)
    (result : Option TypeExpr) (token : Token) :
    (reading.mapSpan f).stepBody (OpenImpl.mapSpan f impl) (head.mapSpan f)
        (result.map (·.mapSpan f)) token other =
      (reading.stepBody impl head result token place).map (mapSpan f) := by
  cases token with
  | body text =>
    simp [stepBody, ← go_mapSpan, Focus.mapSpan, OpenImpl.mapSpan, ImplDef.mapSpan,
      MethodHead.method, MethodDef.mapSpan, MethodHead.mapSpan, Fenced.mapSpan, h]
  | _ => rfl

/-- Taking the token after a pause commutes with changing spans. -/
theorem pause_step_mapSpan (settled : Reading) (pause : Pause) (token : Token) :
    (pause.mapSpan f).step (settled.mapSpan f) token other =
      (pause.step settled token place).map (mapSpan f) := by
  cases pause with
  | items notes => exact stepItems_mapSpan h settled notes token
  | bases impl => exact stepBases_mapSpan settled impl token
  | methods impl notes => exact stepMethods_mapSpan h settled impl notes token
  | params impl head => exact stepParams_mapSpan settled impl head token
  | body impl head result => exact stepBody_mapSpan h settled impl head result token

end Reading

/-- Advancing the open item commutes with changing spans. -/
theorem Focus.advance_mapSpan (token : Token) (focus : Focus) :
    (focus.mapSpan f).advance token other = (focus.advance token place).map (·.mapSpan f) := by
  cases focus with
  | items notes => rfl
  | methods impl notes => rfl
  | importing inner => simp [advance, mapSpan, Function.comp_def]
  | annotating before inner =>
    simp [advance, mapSpan, AnnotationReading.step_mapSpan h, Function.comp_def]
  | methodAnnotating impl before inner =>
    simp [advance, mapSpan, AnnotationReading.step_mapSpan h, Function.comp_def]
  | base impl inner => simp [advance, mapSpan, TypeReading.step_mapSpan h, Function.comp_def]
  | paramType impl head name span inner =>
    simp [advance, mapSpan, TypeReading.step_mapSpan h, Function.comp_def]
  | result impl head inner =>
    simp [advance, mapSpan, TypeReading.step_mapSpan h, Function.comp_def]
  | methodName impl notes => cases token <;> simp [advance, mapSpan, MethodHead.mapSpan, h]
  | params impl head =>
    cases token with
    | mark mark => cases mark <;> rfl
    | _ => simp [advance, mapSpan, h]
  | bases impl =>
    have hinner : (TypeReading.start []).step token other =
        ((TypeReading.start []).step token place).map (·.mapSpan f) :=
      TypeReading.step_mapSpan h token (.start [])
    simp only [advance, mapSpan, hinner]
    cases token with
    | mark mark => cases mark <;> rfl
    | _ => rfl
  | _ =>
    cases token with
    | mark mark => cases mark <;> rfl
    | _ => rfl

omit h

/-- A type is complete with other spans when it is complete. -/
theorem TypeReading.done?_mapSpan (reading : TypeReading) :
    (reading.mapSpan f).done? = reading.done?.map (·.mapSpan f) := by
  cases reading with
  | path outer p => cases outer <;> simp [mapSpan, done?]
  | closed outer type => cases outer <;> simp [mapSpan, done?]
  | _ => rfl

/-- An annotation is complete with other spans when it is complete. -/
theorem AnnotationReading.done?_mapSpan (reading : AnnotationReading) :
    (reading.mapSpan f).done? = reading.done?.map (·.mapSpan f) := by
  cases reading with
  | arguments span p reading => cases reading <;> rfl
  | _ => rfl

/-- Reaching a pause commutes with changing spans. -/
theorem Focus.pause?_mapSpan (focus : Focus) :
    (focus.mapSpan f).pause? = focus.pause?.map (Prod.map id (Pause.mapSpan f)) := by
  cases focus with
  | importing inner =>
    simp only [pause?, mapSpan]
    cases inner.done? <;> rfl
  | annotating before inner =>
    simp only [pause?, mapSpan, AnnotationReading.done?_mapSpan]
    cases inner.done? <;> simp [Pause.mapSpan]
  | methodAnnotating impl before inner =>
    simp only [pause?, mapSpan, AnnotationReading.done?_mapSpan]
    cases inner.done? <;> simp [Pause.mapSpan]
  | base impl inner =>
    simp only [pause?, mapSpan, TypeReading.done?_mapSpan]
    cases inner.done? <;> simp [Pause.mapSpan, OpenImpl.mapSpan, ImplDef.mapSpan]
  | param impl head name span =>
    simp [pause?, mapSpan, Pause.mapSpan, ← MethodHead.mapSpan_add, Param.mapSpan]
  | paramType impl head name span inner =>
    simp only [pause?, mapSpan, TypeReading.done?_mapSpan]
    cases inner.done? <;> simp [Pause.mapSpan, ← MethodHead.mapSpan_add, Param.mapSpan]
  | result impl head inner =>
    simp only [pause?, mapSpan, TypeReading.done?_mapSpan]
    cases inner.done? <;> rfl
  | _ => rfl

namespace Reading

/-- Reading a token commutes with changing spans. -/
theorem step_mapSpan (h : f (.ofPlace place) = .ofPlace other) (token : Token) (reading : Reading) :
    (reading.mapSpan f).step token other = (reading.step token place).map (mapSpan f) := by
  have hfocus : (reading.mapSpan f).focus = reading.focus.mapSpan f := rfl
  rw [step_eq, step_eq, hfocus, Focus.advance_mapSpan h, Focus.pause?_mapSpan]
  cases reading.focus.advance token place with
  | some focus => rfl
  | none =>
    cases reading.focus.pause? with
    | none => rfl
    | some paused => exact pause_step_mapSpan h (reading.addImports paused.1) paused.2 token

/-- A complete definition stays complete when spans are changed. -/
theorem done?_mapSpan (reading : Reading) :
    (reading.mapSpan f).done? = reading.done?.map (·.mapSpan f (Fenced.mapSpan f)) := by
  have hmap : (reading.mapSpan f).focus = reading.focus.mapSpan f := rfl
  cases hfocus : reading.focus with
  | items notes =>
    simp only [done?, hmap, hfocus, Focus.mapSpan]
    cases notes <;> rfl
  | importing inner =>
    simp only [done?, hmap, hfocus, Focus.mapSpan]
    cases inner.done? <;> rfl
  | _ =>
    simp only [done?, hmap, hfocus, Focus.mapSpan]
    rfl

end Reading

end Interpose
