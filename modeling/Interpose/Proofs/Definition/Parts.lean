import Interpose.Proofs.Definition.Printer
import Interpose.Proofs.Definition.Steps
import Interpose.Proofs.Source.Layout

/-!
# Parts that are read can be printed

What has been read so far of a type, of an annotation or of an import is well formed. Every token
that is legible keeps this, so it holds of the type, annotation or import that is complete.
-/

namespace Interpose

open Source

variable {mode : Mode} {token : Token} {place : Place}

/-- What holds of the members of a list and of one more item holds of the longer list. -/
theorem forall_mem_concat {Item : Type} {p : Item → Prop} {items : List Item} {item : Item}
    (h : ∀ other ∈ items, p other) (hitem : p item) : ∀ other ∈ items ++ [item], p other :=
  List.forall_mem_append.mpr ⟨h, List.forall_mem_singleton.mpr hitem⟩

/-! ## Types -/

/-- Names that make up a dotted name. -/
def Named (names : List String) : Prop := names ≠ [] ∧ ∀ name ∈ names, isName name.toList

/-- A name is the names of a path. -/
theorem named_singleton {name : String} (h : isName name.toList) : Named [name] :=
  ⟨by simp, by simpa using h⟩

/-- A dotted name with one more name. -/
theorem Named.concat {names : List String} {name : String} (h : Named names)
    (hname : isName name.toList) : Named (names ++ [name]) :=
  ⟨by simp, forall_mem_concat h.2 hname⟩

/-- Names with dots between them are a dotted path. -/
theorem Named.isDotted {names : List String} (h : Named names) :
    IsDotted (".".intercalate names) := ⟨names, h.1, h.2, rfl⟩

/-- An open type whose parts can be written. -/
structure OpenType.Sound (outer : OpenType) : Prop where
  path : Named outer.path.names
  args : ∀ arg ∈ outer.args, arg.WellNamed

namespace OpenType.Sound

variable {outer : OpenType} {arg : TypeExpr}

/-- An argument joins an open type. -/
theorem add (h : outer.Sound) (harg : arg.WellNamed) : (outer.add arg).Sound :=
  ⟨h.path, forall_mem_concat h.args harg⟩

/-- An argument closes an open type. -/
theorem close (h : outer.Sound) (harg : arg.WellNamed) : (outer.close arg).WellNamed :=
  .mk h.path.isDotted (h.add harg).args

end OpenType.Sound

/-- The type of a path is well named. -/
theorem Path.wellNamed_type {p : Path} (h : Named p.names) : p.type.WellNamed :=
  .mk h.isDotted (by simp)

/-- What has been read of a type can be written. -/
def TypeReading.Sound : TypeReading → Prop
  | .start outer => ∀ open' ∈ outer, open'.Sound
  | .path outer p => (∀ open' ∈ outer, open'.Sound) ∧ Named p.names
  | .dot outer p => (∀ open' ∈ outer, open'.Sound) ∧ Named p.names
  | .closed outer type => (∀ open' ∈ outer, open'.Sound) ∧ type.WellNamed

namespace TypeReading

/-- After a complete type, the innermost open one goes on or is closed. -/
private theorem sound_of_complete {inner : OpenType} {outer : List OpenType} {type : TypeExpr}
    (houter : ∀ open' ∈ inner :: outer, open'.Sound) (htype : type.WellNamed) :
    Sound (.start (inner.add type :: outer)) ∧ Sound (.closed outer (inner.close type)) := by
  obtain ⟨hinner, houter⟩ := List.forall_mem_cons.mp houter
  exact ⟨List.forall_mem_cons.mpr ⟨hinner.add htype, houter⟩, houter, hinner.close htype⟩

/-- A legible token goes on with a type that can be written. -/
theorem Sound.step {reading next : TypeReading} (h : reading.Sound) (htoken : token.Legible mode)
    (hstep : reading.step token place = some next) : next.Sound := by
  cases reading with
  | start outer =>
    simp only [TypeReading.step] at hstep
    split at hstep
    · obtain rfl := Option.some.inj hstep
      exact ⟨h, named_singleton htoken.1⟩
    · simp at hstep
  | path outer p =>
    obtain ⟨houter, hp⟩ := h
    simp only [TypeReading.step] at hstep
    split at hstep
    · obtain rfl := Option.some.inj hstep
      exact ⟨houter, hp⟩
    · obtain rfl := Option.some.inj hstep
      exact List.forall_mem_cons.mpr ⟨⟨hp, by simp⟩, houter⟩
    · obtain rfl := Option.some.inj hstep
      exact (sound_of_complete houter (Path.wellNamed_type hp)).1
    · obtain rfl := Option.some.inj hstep
      exact (sound_of_complete houter (Path.wellNamed_type hp)).2
    · simp at hstep
  | dot outer p =>
    simp only [TypeReading.step] at hstep
    split at hstep
    · obtain rfl := Option.some.inj hstep
      exact ⟨h.1, h.2.concat htoken.1⟩
    · simp at hstep
  | closed outer type =>
    obtain ⟨houter, htype⟩ := h
    simp only [TypeReading.step] at hstep
    split at hstep
    · obtain rfl := Option.some.inj hstep
      exact (sound_of_complete houter htype).1
    · obtain rfl := Option.some.inj hstep
      exact (sound_of_complete houter htype).2
    · simp at hstep

/-- A complete type can be written. -/
theorem Sound.done? {reading : TypeReading} {type : TypeExpr} (h : reading.Sound)
    (hdone : reading.done? = some type) : type.WellNamed := by
  cases reading with
  | path outer p =>
    cases outer with
    | nil =>
      obtain rfl := Option.some.inj hdone
      exact Path.wellNamed_type h.2
    | cons inner outer => simp [TypeReading.done?] at hdone
  | closed outer type =>
    cases outer with
    | nil =>
      obtain rfl := Option.some.inj hdone
      exact h.2
    | cons inner outer => simp [TypeReading.done?] at hdone
  | _ => simp [TypeReading.done?] at hdone

end TypeReading

/-! ## Annotations -/

/-- Arguments that have the texts of their kinds. -/
def Values (args : List Argument) : Prop := ∀ arg ∈ args, IsValue arg.kind arg.value

/-- A value joins others. -/
theorem Values.concat {args : List Argument} {arg : Argument} (h : Values args)
    (harg : IsValue arg.kind arg.value) : Values (args ++ [arg]) :=
  forall_mem_concat h harg

/-- An open call whose parts can be written. -/
structure OpenCall.Sound (call : OpenCall) : Prop where
  path : Named call.path.names
  before : Values call.before

/-- A call with values as arguments is a value. -/
theorem OpenCall.Sound.close {call : OpenCall} {args : List Argument} (h : call.Sound)
    (hargs : Values args) : Values (call.close args) :=
  h.before.concat (.call h.path.isDotted hargs)

/-- What has been read of arguments can be written. -/
def ArgumentReading.Sound : ArgumentReading → Prop
  | .start outer args => (∀ call ∈ outer, call.Sound) ∧ Values args
  | .path outer args p => (∀ call ∈ outer, call.Sound) ∧ Values args ∧ Named p.names
  | .dot outer args p => (∀ call ∈ outer, call.Sound) ∧ Values args ∧ Named p.names
  | .value outer args => (∀ call ∈ outer, call.Sound) ∧ Values args
  | .closed args => Values args

namespace ArgumentReading

/-- Closing a list of values leaves values. -/
private theorem sound_close {args : List Argument} {outer : List OpenCall}
    (houter : ∀ call ∈ outer, call.Sound) (hargs : Values args) : (close args outer).Sound := by
  cases outer with
  | nil => exact hargs
  | cons call outer =>
    obtain ⟨hcall, houter⟩ := List.forall_mem_cons.mp houter
    exact ⟨houter, hcall.close hargs⟩

/-- A path as an argument goes on, or becomes a value. -/
private theorem Sound.step_path {outer : List OpenCall} {args : List Argument} {p : Path}
    {next : ArgumentReading} (h : Sound (.path outer args p))
    (hstep : step token place (.path outer args p) = some next) : next.Sound := by
  obtain ⟨houter, hargs, hp⟩ := h
  have hmore : Values (args ++ [p.argument]) := hargs.concat (.path hp.isDotted)
  simp only [step] at hstep
  split at hstep
  · obtain rfl := Option.some.inj hstep
    exact ⟨houter, hargs, hp⟩
  · obtain rfl := Option.some.inj hstep
    exact ⟨List.forall_mem_cons.mpr ⟨⟨hp, hargs⟩, houter⟩, by simp [Values]⟩
  · obtain rfl := Option.some.inj hstep
    exact ⟨houter, hmore⟩
  · obtain rfl := Option.some.inj hstep
    exact sound_close houter hmore
  · simp at hstep

/-- A legible token goes on with arguments that can be written. -/
theorem Sound.step {reading next : ArgumentReading} (h : reading.Sound)
    (htoken : token.Legible mode) (hstep : reading.step token place = some next) : next.Sound := by
  cases reading with
  | start outer args =>
    obtain ⟨houter, hargs⟩ := h
    simp only [ArgumentReading.step] at hstep
    split at hstep
    · obtain rfl := Option.some.inj hstep
      exact ⟨houter, hargs, named_singleton htoken.1⟩
    · obtain rfl := Option.some.inj hstep
      exact ⟨houter, hargs.concat (.quoted htoken)⟩
    · obtain rfl := Option.some.inj hstep
      exact ⟨houter, hargs.concat (.number htoken)⟩
    · obtain rfl := Option.some.inj hstep
      exact sound_close houter hargs
    · simp at hstep
  | path outer args p => exact h.step_path hstep
  | dot outer args p =>
    obtain ⟨houter, hargs, hp⟩ := h
    simp only [ArgumentReading.step] at hstep
    split at hstep
    · obtain rfl := Option.some.inj hstep
      exact ⟨houter, hargs, hp.concat htoken.1⟩
    · simp at hstep
  | value outer args =>
    obtain ⟨houter, hargs⟩ := h
    simp only [ArgumentReading.step] at hstep
    split at hstep
    · obtain rfl := Option.some.inj hstep
      exact ⟨houter, hargs⟩
    · obtain rfl := Option.some.inj hstep
      exact sound_close houter hargs
    · simp at hstep
  | closed args => simp [ArgumentReading.step] at hstep

end ArgumentReading

/-- What has been read of an annotation can be written. -/
def AnnotationReading.Sound : AnnotationReading → Prop
  | .start _ => True
  | .path _ p => Named p.names
  | .dot _ p => Named p.names
  | .arguments _ p reading => Named p.names ∧ reading.Sound

namespace AnnotationReading

/-- A legible token goes on with an annotation that can be written. -/
theorem Sound.step {reading next : AnnotationReading} (h : reading.Sound)
    (htoken : token.Legible mode) (hstep : reading.step token place = some next) : next.Sound := by
  cases reading with
  | start span =>
    simp only [AnnotationReading.step] at hstep
    split at hstep
    · obtain rfl := Option.some.inj hstep
      exact named_singleton htoken.1
    · simp at hstep
  | path span p =>
    simp only [AnnotationReading.step] at hstep
    split at hstep
    · obtain rfl := Option.some.inj hstep
      exact h
    · obtain rfl := Option.some.inj hstep
      exact ⟨h, by simp, by simp [Values]⟩
    · simp at hstep
  | dot span p =>
    simp only [AnnotationReading.step] at hstep
    split at hstep
    · obtain rfl := Option.some.inj hstep
      exact h.concat htoken.1
    · simp at hstep
  | arguments span p inner =>
    obtain ⟨inner', hinner, rfl⟩ := Option.map_eq_some_iff.mp hstep
    exact ⟨h.1, h.2.step htoken hinner⟩

/-- A complete annotation can be written. -/
theorem Sound.done? {reading : AnnotationReading} {note : Annotation} (h : reading.Sound)
    (hdone : reading.done? = some note) : note.WellFormed := by
  unfold AnnotationReading.done? at hdone
  split at hdone
  · obtain rfl := Option.some.inj hdone
    exact ⟨Named.isDotted h, by simp⟩
  · obtain rfl := Option.some.inj hdone
    refine ⟨h.1.isDotted, fun args hargs => ?_⟩
    obtain rfl := Option.some.inj hargs
    exact h.2
  · simp at hdone

end AnnotationReading

/-! ## Imports -/

/-- The dots and the names of a module that can be written. -/
structure Sourced (dots : Nat) (names : List String) : Prop where
  named : Named names
  first : 0 < dots → ∀ name ∈ names.head?, name.toList ≠ Keyword.importWord.spelling

namespace Sourced

variable {dots : Nat} {names : List String} {name : String}

/-- A name joins those of a module. -/
theorem concat (h : Sourced dots names) (hname : isName name.toList) :
    Sourced dots (names ++ [name]) := by
  refine ⟨h.named.concat hname, fun hdots => ?_⟩
  obtain ⟨first, rest, rfl⟩ := List.exists_cons_of_ne_nil h.named.1
  exact h.first hdots

/-- A module with the dots before it can be written. -/
theorem isOrigin (h : Sourced dots names) : IsOrigin (ImportReading.sourceText dots names) := by
  rcases Nat.eq_zero_or_pos dots with rfl | hdots
  · exact .absolute h.named.1 h.named.2
  · exact .relative hdots h.named.2 (h.first hdots)

end Sourced

/-- What has been read of an import can be written. After dots, the mode keeps the name that follows
from being the keyword after modules. -/
def ImportReading.Sound (mode : Mode) : ImportReading → Prop
  | .plain => True
  | .plainPath names => Named names
  | .plainDot names => Named names
  | .plainAs names => Named names
  | .plainDone names new => Named names ∧ isName new.toList
  | .source => True
  | .sourceDots count => 0 < count ∧ mode = .sourceRest
  | .sourcePath dots names => Sourced dots names
  | .sourceDot dots names => Sourced dots names
  | .pick origin names => IsOrigin origin ∧ ∀ item ∈ names, IsPick item
  | .picked origin before name =>
    IsOrigin origin ∧ (∀ item ∈ before, IsPick item) ∧ isName name.toList
  | .pickAs origin before name =>
    IsOrigin origin ∧ (∀ item ∈ before, IsPick item) ∧ isName name.toList
  | .pickedAs origin names => IsOrigin origin ∧ names ≠ [] ∧ ∀ item ∈ names, IsPick item

namespace ImportReading

variable {reading next : ImportReading}

/-- A legible token goes on with an import that can be written. -/
theorem Sound.step (h : reading.Sound mode) (htoken : token.Legible mode)
    (hstep : reading.step token = some next) : next.Sound (.after token) := by
  cases advances_of_step hstep with
  | plain name => exact named_singleton htoken.1
  | plainDot names => exact h
  | plainAs names => exact h
  | plainPath names name => exact Named.concat h htoken.1
  | plainDone names new => exact ⟨h, htoken.1⟩
  | dots count => exact ⟨htoken, rfl⟩
  | source name => exact ⟨named_singleton htoken.1, by simp⟩
  | sourceDots count name =>
    exact ⟨named_singleton htoken.1, fun _ => by simpa using htoken.2 h.2⟩
  | pickDots count => exact ⟨.relative h.1 (by simp) (by simp), by simp⟩
  | sourceDot dots names => exact h
  | pickSource dots names => exact ⟨Sourced.isOrigin h, by simp⟩
  | sourcePath dots names name => exact Sourced.concat h htoken.1
  | picked origin names name => exact ⟨h.1, h.2, htoken.1⟩
  | pickAs origin before name => exact h
  | comma origin before name => exact ⟨h.1, forall_mem_concat h.2.1 (.plain h.2.2)⟩
  | pickedAs origin before name new =>
    exact ⟨h.1, by simp, forall_mem_concat h.2.1 (.renamed h.2.2 htoken.1)⟩
  | commaAs origin names => exact ⟨h.1, h.2.2⟩

/-- A complete import has the text of one. -/
theorem Sound.done? {item : Import} (h : reading.Sound mode) (hdone : reading.done? = some item) :
    IsImport item.text := by
  cases reading with
  | plainPath names =>
    obtain rfl := Option.some.inj hdone
    exact .plain (Named.isDotted h)
  | plainDone names new =>
    obtain rfl := Option.some.inj hdone
    exact .renamed h.1.isDotted h.2
  | picked origin before name =>
    obtain rfl := Option.some.inj hdone
    exact .picked h.1 (by simp) (forall_mem_concat h.2.1 (.plain h.2.2))
  | pickedAs origin names =>
    obtain rfl := Option.some.inj hdone
    exact .picked h.1 h.2.1 h.2.2
  | _ => simp [ImportReading.done?] at hdone

end ImportReading

end Interpose
