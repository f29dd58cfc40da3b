import Interpose.Proofs.Definition.Feeding
import Interpose.Proofs.Definition.Modes

/-!
# Completing a definition file

However far a definition file has been read, some text completes it: open types are closed with
their brackets, open calls with their parentheses, a method gets an empty body and a block its
brace. A space before each token of the completion keeps it apart from what stands before it.
-/

namespace Interpose

open Source

/-- Some text completes what has been read. -/
def Reading.Completable (place : Place) (reading : Reading) : Prop :=
  ∃ cs definition, reading.Reads place definition reading.mode cs

variable {place : Place} {reading next : Reading}

namespace Reading.Completable

/-- Nothing is missing. -/
theorem of_done {definition : Definition Fenced} (h : reading.done? = some definition) :
    reading.Completable place := ⟨[], definition, reading, .done rfl, h⟩

/-- A token that can be read before a space completes a part of what is missing. -/
theorem step {token : Token}
    (htoken : ∀ cs, munch reading.mode (token.lexeme ++ ' ' :: cs) = some (token, ' ' :: cs))
    (hstep : reading.step token place = some next) (h : next.Completable place) :
    reading.Completable place := by
  obtain ⟨cs, definition, hreads⟩ := h
  rw [mode_step hstep] at hreads
  exact ⟨_, definition, .munch (htoken cs) hstep (.space (by decide) hreads)⟩

/-- A reading can be completed when it can after a mark that it takes. -/
theorem mark (mark : Mark) (hmode : reading.mode = .operator)
    (hstep : reading.step (.mark mark) place = some next) (h : next.Completable place) :
    reading.Completable place := by
  refine .step (fun cs => ?_) hstep h
  rw [hmode]
  exact munch_mark mark _

/-- A reading can be completed when it can after a keyword that it takes. -/
theorem word (word : Keyword) (hmode : reading.mode = .operator)
    (hstep : reading.step (.word word) place = some next) (h : next.Completable place) :
    reading.Completable place := by
  refine .step (fun cs => ?_) hstep h
  rw [hmode]
  exact munch_word word _

/-- A reading can be completed when it can after a closing parenthesis that it takes. -/
theorem closeParen (hmode : reading.mode = .operand)
    (hstep : reading.step (.mark .closeParen) place = some next) (h : next.Completable place) :
    reading.Completable place := by
  refine .step (fun cs => ?_) hstep h
  rw [hmode]
  exact munch_closeParen _

/-- Any name does where one is missing. -/
theorem name (hmode : reading.mode ≠ .operator)
    (hstep : reading.step (.name "x") place = some next) (h : next.Completable place) :
    reading.Completable place := by
  refine .step (fun cs => ?_) hstep h
  have hname : isName ['x'] := rfl
  exact munch_name hmode hname (endsName_cons rfl _) fun _ => by decide

end Reading.Completable

/-! ## Parts of items -/

section

variable {carry : TypeReading → Reading} (hcarry : Carries place TypeReading.step carry)
  (hmode : ∀ inner, (carry inner).mode = inner.mode)
include hcarry hmode

/-- A type that is complete within open ones is completed by their brackets. -/
theorem completable_of_settled (outer : List OpenType)
    (h : ∀ inner type, TypeReading.Settled [] type inner → (carry inner).Completable place)
    {inner : TypeReading} {type : TypeExpr} (hinner : TypeReading.Settled outer type inner) :
    (carry inner).Completable place := by
  induction outer generalizing inner type with
  | nil => exact h inner type hinner
  | cons open' outer ih =>
    have hoperator : (carry inner).mode = .operator := by
      rw [hmode]
      cases hinner <;> rfl
    exact .mark .closeBracket hoperator (hcarry _ _ _ hinner.closeBracket) (ih (.closed _))

/-- A type can be completed when a complete one can be followed by something. -/
theorem completable_type
    (h : ∀ inner type, TypeReading.Settled [] type inner → (carry inner).Completable place)
    (inner : TypeReading) : (carry inner).Completable place := by
  have hoperand : ∀ inner : TypeReading, inner.mode = .operand →
      (carry inner).mode ≠ .operator := by
    intro inner hinner
    rw [hmode, hinner]
    decide
  cases inner with
  | start outer =>
    exact .name (hoperand _ rfl) (hcarry _ _ _ rfl) (completable_of_settled hcarry hmode outer h
      (.path _))
  | path outer p => exact completable_of_settled hcarry hmode outer h (.path p)
  | dot outer p =>
    exact .name (hoperand _ rfl) (hcarry _ _ _ rfl) (completable_of_settled hcarry hmode outer h
      (.path _))
  | closed outer type => exact completable_of_settled hcarry hmode outer h (.closed type)

end

section

variable {carry : ArgumentReading → Reading} (hcarry : Carries place ArgumentReading.step carry)
  (hmode : ∀ inner, (carry inner).mode = inner.mode)
include hcarry hmode

/-- Arguments within open calls are completed by their parentheses. -/
theorem completable_close (h : ∀ args, (carry (.closed args)).Completable place)
    (args : List Argument) (outer : List OpenCall) :
    (carry (.close args outer)).Completable place := by
  induction outer generalizing args with
  | nil => exact h args
  | cons call outer ih => exact .mark .closeParen (hmode _) (hcarry _ _ _ rfl) (ih _)

/-- Arguments can be completed when a closed list of them can be followed by something. -/
theorem completable_arguments (h : ∀ args, (carry (.closed args)).Completable place)
    (inner : ArgumentReading) : (carry inner).Completable place := by
  have hclose := completable_close hcarry hmode h
  have hpath : ∀ outer args p, (carry (.path outer args p)).Completable place := fun outer args p =>
    .mark .closeParen (hmode _) (hcarry _ _ _ rfl) (hclose _ outer)
  cases inner with
  | start outer args => exact .closeParen (hmode _) (hcarry _ _ _ rfl) (hclose args outer)
  | path outer args p => exact hpath outer args p
  | dot outer args p =>
    refine .name ?_ (hcarry _ _ _ rfl) (hpath outer args _)
    rw [hmode]
    nofun
  | value outer args => exact .mark .closeParen (hmode _) (hcarry _ _ _ rfl) (hclose args outer)
  | closed args => exact h args

end

/-- An annotation can be completed when a complete one can be followed by something. -/
theorem completable_annotation {carry : AnnotationReading → Reading}
    (hcarry : Carries place AnnotationReading.step carry)
    (hmode : ∀ inner, (carry inner).mode = inner.mode)
    (h : ∀ inner note, AnnotationReading.Settled place note inner → (carry inner).Completable place)
    (inner : AnnotationReading) : (carry inner).Completable place := by
  have hpath : ∀ span p, (carry (.path span p)).Completable place := fun span p =>
    h _ _ (AnnotationReading.settled_path span p)
  have hoperand : ∀ inner : AnnotationReading, inner.mode = .operand →
      (carry inner).mode ≠ .operator := by
    intro inner hinner
    rw [hmode, hinner]
    decide
  cases inner with
  | start span => exact .name (hoperand _ rfl) (hcarry _ _ _ rfl) (hpath span _)
  | path span p => exact hpath span p
  | dot span p => exact .name (hoperand _ rfl) (hcarry _ _ _ rfl) (hpath span _)
  | arguments span p inner =>
    have hinner : Carries place ArgumentReading.step fun inner =>
        carry (.arguments span p inner) := by
      intro token inner next hstep
      refine hcarry _ _ _ ?_
      simp [AnnotationReading.step, hstep]
    refine completable_arguments hinner (fun inner => hmode _) (fun args => ?_) inner
    exact h _ ⟨p.text, some args, span⟩ ⟨rfl, fun _ _ _ => rfl⟩

/-- Nothing needs to follow a complete annotation. -/
theorem AnnotationReading.Settled.mode {note : Annotation} {inner : AnnotationReading}
    (h : Settled place note inner) : inner.mode = .operator := by
  have hdone := h.done?
  unfold AnnotationReading.done? at hdone
  split at hdone
  · rfl
  · rfl
  · simp at hdone

/-- An import can be completed when nothing needs to follow it. -/
theorem completable_import {carry : ImportReading → Reading}
    (hcarry : Carries place (fun token _ => ImportReading.step token) carry)
    (hmode : ∀ inner, (carry inner).mode = inner.mode)
    (h : ∀ inner item, inner.done? = some item → (carry inner).Completable place)
    (inner : ImportReading) : (carry inner).Completable place := by
  have hname : ∀ inner next : ImportReading, inner.mode ≠ .operator →
      inner.step (.name "x") = some next → (carry next).Completable place →
      (carry inner).Completable place := by
    intro inner next hinner hstep hnext
    refine .name ?_ (hcarry _ _ _ hstep) hnext
    rw [hmode]
    exact hinner
  have hpick : ∀ origin picks, (carry (.pick origin picks)).Completable place :=
    fun origin picks => hname _ _ nofun rfl (h _ _ rfl)
  have hpath : ∀ dots names, (carry (.sourcePath dots names)).Completable place :=
    fun dots names => .word .importWord (hmode _) (hcarry _ _ _ rfl) (hpick _ _)
  cases inner with
  | plain => exact hname _ _ nofun rfl (h _ _ rfl)
  | plainPath names => exact h _ _ rfl
  | plainDot names => exact hname _ _ nofun rfl (h _ _ rfl)
  | plainAs names => exact hname _ _ nofun rfl (h _ _ rfl)
  | plainDone names new => exact h _ _ rfl
  | source => exact hname _ _ nofun rfl (hpath _ _)
  | sourceDots count => exact hname _ _ nofun rfl (hpath _ _)
  | sourcePath dots names => exact hpath dots names
  | sourceDot dots names => exact hname _ _ nofun rfl (hpath _ _)
  | pick origin picks => exact hpick origin picks
  | picked origin before name => exact h _ _ rfl
  | pickAs origin before name => exact hname _ _ nofun rfl (h _ _ rfl)
  | pickedAs origin picks => exact h _ _ rfl

/-! ## Items -/

namespace Reading

variable (reading : Reading) (impl : OpenImpl) (head : MethodHead)

/-- An empty body, which begins a new state of the block between methods. -/
theorem munch_emptyBody (cs : List Char) :
    munch .operator ((Token.body "").lexeme ++ ' ' :: cs) = some (.body "", ' ' :: cs) := rfl

/-- A block without open annotations is completed by its brace. -/
theorem completable_methods_nil : (reading.go (.methods impl [])).Completable place :=
  .mark .closeBrace rfl rfl (.of_done rfl)

/-- A method can be completed after its parameters. -/
theorem completable_paramsDone : (reading.go (.paramsDone impl head)).Completable place :=
  .step munch_emptyBody rfl (completable_methods_nil reading _)

/-- A method can be completed within its parameters. -/
theorem completable_params : (reading.go (.params impl head)).Completable place :=
  .closeParen rfl rfl (completable_paramsDone reading impl head)

/-- A method can be completed after its name. -/
theorem completable_methodHead : (reading.go (.methodHead impl head)).Completable place :=
  .mark .openParen rfl rfl (completable_params reading impl head)

/-- A method can be completed before its name. -/
theorem completable_methodName (notes : List Annotation) :
    (reading.go (.methodName impl notes)).Completable place :=
  .name nofun rfl (completable_methodHead reading impl _)

/-- Annotations that wait for a method are completed by one. -/
theorem completable_methods (notes : List Annotation) :
    (reading.go (.methods impl notes)).Completable place := by
  cases notes with
  | nil => exact completable_methods_nil reading impl
  | cons note notes => exact .word .rpcWord rfl rfl (completable_methodName reading impl _)

/-- A block can be completed after its bases. -/
theorem completable_basesDone : (reading.go (.basesDone impl)).Completable place :=
  .mark .openBrace rfl rfl (completable_methods_nil reading impl)

/-- A block can be completed after its name. -/
theorem completable_implHead : (reading.go (.implHead impl)).Completable place :=
  .mark .openBrace rfl rfl (completable_methods_nil reading impl)

/-- A block can be completed before its name. -/
theorem completable_implName (notes : List Annotation) (span : Span) :
    (reading.go (.implName notes span)).Completable place :=
  .name nofun rfl (completable_implHead reading _)

/-- A file is complete between items, unless annotations wait for a block. -/
theorem completable_items (notes : List Annotation) :
    (reading.go (.items notes)).Completable place := by
  cases notes with
  | nil => exact .of_done rfl
  | cons note notes => exact .word .implWord rfl rfl (completable_implName reading _ _)

/-- A base can be completed, and then the block. -/
theorem completable_base (inner : TypeReading) :
    (reading.go (.base impl inner)).Completable place := by
  have hcarry : Carries place TypeReading.step fun inner => reading.go (.base impl inner) := by
    intro token inner next hstep
    simp [Reading.step, Reading.go, hstep]
  refine completable_type hcarry (fun _ => rfl) (fun inner type hinner => ?_) inner
  cases hinner with
  | path p => exact .mark .closeParen rfl rfl (completable_basesDone reading _)
  | closed type => exact .mark .closeParen rfl rfl (completable_basesDone reading _)

/-- The type of a parameter can be completed, and then the method. -/
theorem completable_paramType (name : String) (span : Span) (inner : TypeReading) :
    (reading.go (.paramType impl head name span inner)).Completable place := by
  have hcarry : Carries place TypeReading.step fun inner =>
      reading.go (.paramType impl head name span inner) := by
    intro token inner next hstep
    simp [Reading.step, Reading.go, hstep]
  refine completable_type hcarry (fun _ => rfl) (fun inner type hinner => ?_) inner
  cases hinner with
  | path p => exact .mark .closeParen rfl rfl (completable_paramsDone reading impl _)
  | closed type => exact .mark .closeParen rfl rfl (completable_paramsDone reading impl _)

/-- The result of a method can be completed, and then the method. -/
theorem completable_result (inner : TypeReading) :
    (reading.go (.result impl head inner)).Completable place := by
  have hcarry : Carries place TypeReading.step fun inner =>
      reading.go (.result impl head inner) := by
    intro token inner next hstep
    simp [Reading.step, Reading.go, hstep]
  refine completable_type hcarry (fun _ => rfl) (fun inner type hinner => ?_) inner
  cases hinner with
  | path p => exact .step munch_emptyBody rfl (completable_methods_nil reading _)
  | closed type => exact .step munch_emptyBody rfl (completable_methods_nil reading _)

/-- An annotation between methods can be completed, and then a method after it. -/
theorem completable_methodAnnotating (notes : List Annotation) (inner : AnnotationReading) :
    (reading.go (.methodAnnotating impl notes inner)).Completable place := by
  have hcarry : Carries place AnnotationReading.step fun inner =>
      reading.go (.methodAnnotating impl notes inner) := by
    intro token inner next hstep
    simp [Reading.step, Reading.go, hstep]
  refine completable_annotation hcarry (fun _ => rfl) (fun inner note hinner => ?_) inner
  have hstep : (reading.go (.methodAnnotating impl notes inner)).step (.word .rpcWord) place =
      some (reading.go (.methodName impl (notes ++ [note]))) := by
    simp [Reading.step, Reading.go, hinner.step_eq_none, hinner.done?, Reading.stepMethods]
  exact .word .rpcWord hinner.mode hstep (completable_methodName reading impl _)

/-- An annotation between items can be completed, and then a block after it. -/
theorem completable_annotating (notes : List Annotation) (inner : AnnotationReading) :
    (reading.go (.annotating notes inner)).Completable place := by
  have hcarry : Carries place AnnotationReading.step fun inner =>
      reading.go (.annotating notes inner) := by
    intro token inner next hstep
    simp [Reading.step, Reading.go, hstep]
  refine completable_annotation hcarry (fun _ => rfl) (fun inner note hinner => ?_) inner
  obtain ⟨span, hspan⟩ : ∃ span, (reading.go (.annotating notes inner)).stepItems (notes ++ [note])
      (.word .implWord) place = some (reading.go (.implName (notes ++ [note]) span)) := by
    cases notes with
    | nil => exact ⟨note.span, rfl⟩
    | cons first notes => exact ⟨first.span, rfl⟩
  have hstep : (reading.go (.annotating notes inner)).step (.word .implWord) place =
      some (reading.go (.implName (notes ++ [note]) span)) := by
    rw [← hspan]
    simp [Reading.step, Reading.go, hinner.step_eq_none, hinner.done?]
  exact .word .implWord hinner.mode hstep (completable_implName reading _ span)

/-- An import can be completed, and then the file. -/
theorem completable_importing (inner : ImportReading) :
    (reading.go (.importing inner)).Completable place := by
  have hcarry : Carries place (fun token _ => ImportReading.step token) fun inner =>
      reading.go (.importing inner) := by
    intro token inner next hstep
    simp [Reading.step, Reading.go, hstep]
  refine completable_import hcarry (fun _ => rfl) (fun inner item hdone => ?_) inner
  have hitem : (reading.go (.importing inner)).done? =
      some ⟨reading.imports ++ [item], reading.impls⟩ := by
    simp [Reading.done?, Reading.go, hdone]
  exact .of_done hitem

/-- However far a file has been read, some text completes it. -/
theorem completable : reading.Completable place := by
  obtain ⟨imports, impls, focus⟩ := reading
  let before : Reading := ⟨imports, impls, .items []⟩
  cases focus with
  | items notes => exact completable_items before notes
  | importing inner => exact completable_importing before inner
  | annotating notes inner => exact completable_annotating before notes inner
  | implName notes span => exact completable_implName before notes span
  | implHead impl => exact completable_implHead before impl
  | bases impl => exact .closeParen rfl rfl (completable_basesDone before impl)
  | base impl inner => exact completable_base before impl inner
  | basesDone impl => exact completable_basesDone before impl
  | methods impl notes => exact completable_methods before impl notes
  | methodAnnotating impl notes inner => exact completable_methodAnnotating before impl notes inner
  | methodName impl notes => exact completable_methodName before impl notes
  | methodHead impl head => exact completable_methodHead before impl head
  | params impl head => exact completable_params before impl head
  | param impl head name span =>
    exact .mark .closeParen rfl rfl (completable_paramsDone before impl _)
  | paramType impl head name span inner =>
    exact completable_paramType before impl head name span inner
  | paramsDone impl head => exact completable_paramsDone before impl head
  | result impl head inner => exact completable_result before impl head inner

end Reading

end Interpose
