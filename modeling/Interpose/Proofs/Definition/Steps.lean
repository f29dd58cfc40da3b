import Interpose.Definition.Reading

/-!
# What one token does

A token goes on with the part of the open item that was being read, or that part is complete and the
item goes on after it. So a step is one of two: the open item advances, or it pauses, and what
follows a pause takes the token. Whatever every step keeps is shown for the two one at a time.
-/

namespace Interpose

open Source (Token Place)

/-! ## Imports -/

/-- What one token does to an import. -/
inductive ImportReading.Advances : Token → ImportReading → ImportReading → Prop where
  /-- A module begins. -/
  | plain (name : String) : Advances (.name name) .plain (.plainPath [name])
  /-- A dot follows the names of a module. -/
  | plainDot (names : List String) : Advances (.mark .dot) (.plainPath names) (.plainDot names)
  /-- A new name is announced. -/
  | plainAs (names : List String) : Advances (.word .asWord) (.plainPath names) (.plainAs names)
  /-- A module goes on. -/
  | plainPath (names : List String) (name : String) :
    Advances (.name name) (.plainDot names) (.plainPath (names ++ [name]))
  /-- A module gets a new name. -/
  | plainDone (names : List String) (new : String) :
    Advances (.name new) (.plainAs names) (.plainDone names new)
  /-- Dots come before a module. -/
  | dots (count : Nat) : Advances (.dots count) .source (.sourceDots count)
  /-- A module without dots begins. -/
  | source (name : String) : Advances (.name name) .source (.sourcePath 0 [name])
  /-- A module begins after dots. -/
  | sourceDots (count : Nat) (name : String) :
    Advances (.name name) (.sourceDots count) (.sourcePath count [name])
  /-- Names are imported from dots alone. -/
  | pickDots (count : Nat) :
    Advances (.word .importWord) (.sourceDots count) (.pick (sourceText count []) [])
  /-- A dot follows the names of the module from which names are imported. -/
  | sourceDot (dots : Nat) (names : List String) :
    Advances (.mark .dot) (.sourcePath dots names) (.sourceDot dots names)
  /-- Names are imported from a module. -/
  | pickSource (dots : Nat) (names : List String) :
    Advances (.word .importWord) (.sourcePath dots names) (.pick (sourceText dots names) [])
  /-- The module from which names are imported goes on. -/
  | sourcePath (dots : Nat) (names : List String) (name : String) :
    Advances (.name name) (.sourceDot dots names) (.sourcePath dots (names ++ [name]))
  /-- A name is imported. -/
  | picked (origin : String) (names : List String) (name : String) :
    Advances (.name name) (.pick origin names) (.picked origin names name)
  /-- A new name is announced for a name that is imported. -/
  | pickAs (origin : String) (before : List String) (name : String) :
    Advances (.word .asWord) (.picked origin before name) (.pickAs origin before name)
  /-- Another name follows. -/
  | comma (origin : String) (before : List String) (name : String) :
    Advances (.mark .comma) (.picked origin before name) (.pick origin (before ++ [name]))
  /-- A name that is imported gets a new name. -/
  | pickedAs (origin : String) (before : List String) (name new : String) :
    Advances (.name new) (.pickAs origin before name)
      (.pickedAs origin (before ++ [aliasText name new]))
  /-- Another name follows a new name. -/
  | commaAs (origin : String) (names : List String) :
    Advances (.mark .comma) (.pickedAs origin names) (.pick origin names)

/-- What an import does when it takes a token. -/
theorem ImportReading.advances_of_step {token : Token} {reading next : ImportReading}
    (h : reading.step token = some next) : Advances token reading next := by
  cases reading with
  | plainDone names new => cases h
  | _ =>
    simp only [step] at h
    split at h <;> cases h <;> constructor

/-! ## Open items -/

/-- Where an item stands whose parts are all complete. -/
inductive Pause where
  /-- Before an item, after annotations for the next service block. -/
  | items (annotations : List Annotation)
  /-- After a base of a service block. -/
  | bases (impl : OpenImpl)
  /-- Before a method, after annotations for it. -/
  | methods (impl : OpenImpl) (annotations : List Annotation)
  /-- After a parameter of a method. -/
  | params (impl : OpenImpl) (head : MethodHead)
  /-- Before the body of a method. -/
  | body (impl : OpenImpl) (head : MethodHead) (result : Option TypeExpr)

/-- Read the token after a pause. -/
def Pause.step (reading : Reading) (token : Token) (place : Place) : Pause → Option Reading
  | .items notes => reading.stepItems notes token place
  | .bases impl => reading.stepBases impl token
  | .methods impl notes => reading.stepMethods impl notes token place
  | .params impl head => reading.stepParams impl head token
  | .body impl head result => reading.stepBody impl head result token place

/-- The open item when the part of it that is being read goes on with a token. -/
def Focus.advance (token : Token) (place : Place) : Focus → Option Focus
  | .items _ => none
  | .importing inner => (inner.step token).map .importing
  | .annotating before inner => (inner.step token place).map (.annotating before)
  | .implName notes span =>
    match token with
    | .name name => some (.implHead ⟨name, [], [], notes, span⟩)
    | _ => none
  | .implHead impl =>
    match token with
    | .mark .openParen => some (.bases impl)
    | .mark .openBrace => some (.methods impl [])
    | _ => none
  | .bases impl =>
    match token with
    | .mark .closeParen => some (.basesDone impl)
    | _ => (TypeReading.step token place (.start [])).map (.base impl)
  | .base impl inner => (inner.step token place).map (.base impl)
  | .basesDone impl =>
    match token with
    | .mark .openBrace => some (.methods impl [])
    | _ => none
  | .methods _ _ => none
  | .methodAnnotating impl before inner =>
    (inner.step token place).map (.methodAnnotating impl before)
  | .methodName impl notes =>
    match token with
    | .name name => some (.methodHead impl ⟨name, .ofPlace place, notes, []⟩)
    | _ => none
  | .methodHead impl head =>
    match token with
    | .mark .openParen => some (.params impl head)
    | _ => none
  | .params impl head =>
    match token with
    | .name name => some (.param impl head name (.ofPlace place))
    | .mark .closeParen => some (.paramsDone impl head)
    | _ => none
  | .param impl head name span =>
    match token with
    | .mark .colon => some (.paramType impl head name span (.start []))
    | _ => none
  | .paramType impl head name span inner =>
    (inner.step token place).map (.paramType impl head name span)
  | .paramsDone impl head =>
    match token with
    | .mark .arrow => some (.result impl head (.start []))
    | _ => none
  | .result impl head inner => (inner.step token place).map (.result impl head)

/-- What one token does to the open item as long as it does not pause. -/
inductive Focus.Advances (place : Place) : Token → Focus → Focus → Prop where
  /-- An import goes on. -/
  | importing {token : Token} {inner next : ImportReading} (h : inner.step token = some next) :
    Advances place token (.importing inner) (.importing next)
  /-- An annotation of a service block goes on. -/
  | annotating {token : Token} {before : List Annotation} {inner next : AnnotationReading}
    (h : inner.step token place = some next) :
    Advances place token (.annotating before inner) (.annotating before next)
  /-- A service block gets its name. -/
  | implName (notes : List Annotation) (span : Span) (name : String) :
    Advances place (.name name) (.implName notes span) (.implHead ⟨name, [], [], notes, span⟩)
  /-- The bases begin. -/
  | openBases (impl : OpenImpl) : Advances place (.mark .openParen) (.implHead impl) (.bases impl)
  /-- The methods of a block without bases begin. -/
  | openBlock (impl : OpenImpl) :
    Advances place (.mark .openBrace) (.implHead impl) (.methods impl [])
  /-- The bases end where one could begin. -/
  | closeBases (impl : OpenImpl) :
    Advances place (.mark .closeParen) (.bases impl) (.basesDone impl)
  /-- A base begins. -/
  | openBase {token : Token} {impl : OpenImpl} {next : TypeReading}
    (h : TypeReading.step token place (.start []) = some next) :
    Advances place token (.bases impl) (.base impl next)
  /-- A base goes on. -/
  | base {token : Token} {impl : OpenImpl} {inner next : TypeReading}
    (h : inner.step token place = some next) :
    Advances place token (.base impl inner) (.base impl next)
  /-- The methods of a block with bases begin. -/
  | openMethods (impl : OpenImpl) :
    Advances place (.mark .openBrace) (.basesDone impl) (.methods impl [])
  /-- An annotation of a method goes on. -/
  | methodAnnotating {token : Token} {impl : OpenImpl} {before : List Annotation}
    {inner next : AnnotationReading} (h : inner.step token place = some next) :
    Advances place token (.methodAnnotating impl before inner) (.methodAnnotating impl before next)
  /-- A method gets its name. -/
  | methodName (impl : OpenImpl) (notes : List Annotation) (name : String) :
    Advances place (.name name) (.methodName impl notes)
      (.methodHead impl ⟨name, .ofPlace place, notes, []⟩)
  /-- The parameters begin. -/
  | openParams (impl : OpenImpl) (head : MethodHead) :
    Advances place (.mark .openParen) (.methodHead impl head) (.params impl head)
  /-- A parameter begins. -/
  | openParam (impl : OpenImpl) (head : MethodHead) (name : String) :
    Advances place (.name name) (.params impl head) (.param impl head name (.ofPlace place))
  /-- The parameters end where one could begin. -/
  | closeParams (impl : OpenImpl) (head : MethodHead) :
    Advances place (.mark .closeParen) (.params impl head) (.paramsDone impl head)
  /-- The type of a parameter begins. -/
  | openType (impl : OpenImpl) (head : MethodHead) (name : String) (span : Span) :
    Advances place (.mark .colon) (.param impl head name span)
      (.paramType impl head name span (.start []))
  /-- The type of a parameter goes on. -/
  | paramType {token : Token} {impl : OpenImpl} {head : MethodHead} {name : String} {span : Span}
    {inner next : TypeReading} (h : inner.step token place = some next) :
    Advances place token (.paramType impl head name span inner)
      (.paramType impl head name span next)
  /-- The result of a method begins. -/
  | openResult (impl : OpenImpl) (head : MethodHead) :
    Advances place (.mark .arrow) (.paramsDone impl head) (.result impl head (.start []))
  /-- The result of a method goes on. -/
  | result {token : Token} {impl : OpenImpl} {head : MethodHead} {inner next : TypeReading}
    (h : inner.step token place = some next) :
    Advances place token (.result impl head inner) (.result impl head next)

/-- What the open item does when it advances. -/
theorem Focus.advances_of_advance {token : Token} {place : Place} {focus next : Focus}
    (h : focus.advance token place = some next) : Advances place token focus next := by
  cases focus with
  | items notes => cases h
  | methods impl notes => cases h
  | importing inner =>
    obtain ⟨more, hmore, rfl⟩ := Option.map_eq_some_iff.mp h
    exact .importing hmore
  | annotating before inner =>
    obtain ⟨more, hmore, rfl⟩ := Option.map_eq_some_iff.mp h
    exact .annotating hmore
  | base impl inner =>
    obtain ⟨more, hmore, rfl⟩ := Option.map_eq_some_iff.mp h
    exact .base hmore
  | methodAnnotating impl before inner =>
    obtain ⟨more, hmore, rfl⟩ := Option.map_eq_some_iff.mp h
    exact .methodAnnotating hmore
  | paramType impl head name span inner =>
    obtain ⟨more, hmore, rfl⟩ := Option.map_eq_some_iff.mp h
    exact .paramType hmore
  | result impl head inner =>
    obtain ⟨more, hmore, rfl⟩ := Option.map_eq_some_iff.mp h
    exact .result hmore
  | bases impl =>
    simp only [advance] at h
    split at h
    · cases h
      exact .closeBases impl
    · obtain ⟨more, hmore, rfl⟩ := Option.map_eq_some_iff.mp h
      exact .openBase hmore
  | _ =>
    simp only [advance] at h
    split at h <;> cases h <;> constructor

/-- The pause that is reached when the part that is being read is complete, and the import that is
complete with it. -/
def Focus.pause? : Focus → Option (List Import × Pause)
  | .items notes => some ([], .items notes)
  | .importing inner => inner.done?.map fun done => ([done], .items [])
  | .annotating before inner => inner.done?.map fun done => ([], .items (before ++ [done]))
  | .base impl inner =>
    inner.done?.map fun done => ([], .bases { impl with bases := impl.bases ++ [done] })
  | .methods impl notes => some ([], .methods impl notes)
  | .methodAnnotating impl before inner =>
    inner.done?.map fun done => ([], .methods impl (before ++ [done]))
  | .param impl head name span => some ([], .params impl (head.add ⟨name, none, span⟩))
  | .paramType impl head name span inner =>
    inner.done?.map fun done => ([], .params impl (head.add ⟨name, some done, span⟩))
  | .paramsDone impl head => some ([], .body impl head none)
  | .result impl head inner => inner.done?.map fun done => ([], .body impl head (some done))
  | _ => none

/-- What is complete when the open item pauses. -/
inductive Focus.Pauses : Focus → List Import → Pause → Prop where
  /-- No item is open. -/
  | items (notes : List Annotation) : Pauses (.items notes) [] (.items notes)
  /-- An import is complete. -/
  | importing {inner : ImportReading} {done : Import} (h : inner.done? = some done) :
    Pauses (.importing inner) [done] (.items [])
  /-- An annotation of a service block is complete. -/
  | annotating {before : List Annotation} {inner : AnnotationReading} {done : Annotation}
    (h : inner.done? = some done) :
    Pauses (.annotating before inner) [] (.items (before ++ [done]))
  /-- A base is complete. -/
  | base {impl : OpenImpl} {inner : TypeReading} {done : TypeExpr} (h : inner.done? = some done) :
    Pauses (.base impl inner) [] (.bases { impl with bases := impl.bases ++ [done] })
  /-- No method is open. -/
  | methods (impl : OpenImpl) (notes : List Annotation) :
    Pauses (.methods impl notes) [] (.methods impl notes)
  /-- An annotation of a method is complete. -/
  | methodAnnotating {impl : OpenImpl} {before : List Annotation} {inner : AnnotationReading}
    {done : Annotation} (h : inner.done? = some done) :
    Pauses (.methodAnnotating impl before inner) [] (.methods impl (before ++ [done]))
  /-- A parameter without a type is complete. -/
  | param (impl : OpenImpl) (head : MethodHead) (name : String) (span : Span) :
    Pauses (.param impl head name span) [] (.params impl (head.add ⟨name, none, span⟩))
  /-- A parameter with a type is complete. -/
  | paramType {impl : OpenImpl} {head : MethodHead} {name : String} {span : Span}
    {inner : TypeReading} {done : TypeExpr} (h : inner.done? = some done) :
    Pauses (.paramType impl head name span inner) []
      (.params impl (head.add ⟨name, some done, span⟩))
  /-- The head of a method without a result is complete. -/
  | paramsDone (impl : OpenImpl) (head : MethodHead) :
    Pauses (.paramsDone impl head) [] (.body impl head none)
  /-- The head of a method with a result is complete. -/
  | result {impl : OpenImpl} {head : MethodHead} {inner : TypeReading} {done : TypeExpr}
    (h : inner.done? = some done) :
    Pauses (.result impl head inner) [] (.body impl head (some done))

/-- What is complete when the open item has reached a pause. -/
theorem Focus.pauses_of_pause? {focus : Focus} {imports : List Import} {pause : Pause}
    (h : focus.pause? = some (imports, pause)) : focus.Pauses imports pause := by
  cases focus with
  | items notes =>
    cases h
    exact .items notes
  | methods impl notes =>
    cases h
    exact .methods impl notes
  | param impl head name span =>
    cases h
    exact .param impl head name span
  | paramsDone impl head =>
    cases h
    exact .paramsDone impl head
  | importing inner =>
    obtain ⟨done, hdone, heq⟩ := Option.map_eq_some_iff.mp h
    cases heq
    exact .importing hdone
  | annotating before inner =>
    obtain ⟨done, hdone, heq⟩ := Option.map_eq_some_iff.mp h
    cases heq
    exact .annotating hdone
  | base impl inner =>
    obtain ⟨done, hdone, heq⟩ := Option.map_eq_some_iff.mp h
    cases heq
    exact .base hdone
  | methodAnnotating impl before inner =>
    obtain ⟨done, hdone, heq⟩ := Option.map_eq_some_iff.mp h
    cases heq
    exact .methodAnnotating hdone
  | paramType impl head name span inner =>
    obtain ⟨done, hdone, heq⟩ := Option.map_eq_some_iff.mp h
    cases heq
    exact .paramType hdone
  | result impl head inner =>
    obtain ⟨done, hdone, heq⟩ := Option.map_eq_some_iff.mp h
    cases heq
    exact .result hdone
  | _ => cases h

/-! ## Steps -/

namespace Reading

/-- The reading with more complete imports. -/
def addImports (reading : Reading) (imports : List Import) : Reading :=
  { reading with imports := reading.imports ++ imports }

@[simp] theorem addImports_nil (reading : Reading) : reading.addImports [] = reading := by
  simp [addImports]

variable {token : Token} {place : Place} {reading next : Reading}

/-- A step advances the open item, or takes the token after a pause. -/
theorem step_eq (reading : Reading) : reading.step token place =
    match reading.focus.advance token place with
    | some focus => some (reading.go focus)
    | none => reading.focus.pause?.bind fun (imports, pause) =>
      pause.step (reading.addImports imports) token place := by
  obtain ⟨imports, impls, focus⟩ := reading
  cases focus with
  | items notes => simp [step, Focus.advance, Focus.pause?, Pause.step]
  | methods impl notes => simp [step, Focus.advance, Focus.pause?, Pause.step]
  | importing inner =>
    simp only [step, Focus.advance, Focus.pause?]
    cases inner.step token <;> cases inner.done? <;> rfl
  | annotating before inner =>
    simp only [step, Focus.advance, Focus.pause?]
    cases inner.step token place <;> cases inner.done? <;> simp [Pause.step]
  | methodAnnotating impl before inner =>
    simp only [step, Focus.advance, Focus.pause?]
    cases inner.step token place <;> cases inner.done? <;> simp [Pause.step]
  | base impl inner =>
    simp only [step, Focus.advance, Focus.pause?]
    cases inner.step token place <;> cases inner.done? <;> simp [Pause.step]
  | paramType impl head name span inner =>
    simp only [step, Focus.advance, Focus.pause?]
    cases inner.step token place <;> cases inner.done? <;> simp [Pause.step]
  | result impl head inner =>
    simp only [step, Focus.advance, Focus.pause?]
    cases inner.step token place <;> cases inner.done? <;> simp [Pause.step]
  | _ =>
    -- The item goes on with some marks and names; with any other token it pauses, if it can.
    cases token with
    | mark mark =>
      cases mark <;> simp [step, Focus.advance, Focus.pause?, Pause.step, TypeReading.step]
    | _ => simp [step, Focus.advance, Focus.pause?, Pause.step, TypeReading.step]

/-- What a step can do. -/
theorem step_cases (h : reading.step token place = some next) :
    (∃ focus, Focus.Advances place token reading.focus focus ∧ reading.go focus = next) ∨
      ∃ imports pause, reading.focus.Pauses imports pause ∧
        pause.step (reading.addImports imports) token place = some next := by
  rw [step_eq] at h
  cases hadvance : reading.focus.advance token place with
  | some focus =>
    rw [hadvance] at h
    exact .inl ⟨focus, Focus.advances_of_advance hadvance, Option.some.inj h⟩
  | none =>
    rw [hadvance] at h
    obtain ⟨⟨imports, pause⟩, hpause, hstep⟩ := Option.bind_eq_some_iff.mp h
    exact .inr ⟨imports, pause, Focus.pauses_of_pause? hpause, hstep⟩

/-- A step whose item advances. -/
theorem step_of_advance {focus : Focus} (h : reading.focus.advance token place = some focus) :
    reading.step token place = some (reading.go focus) := by
  rw [step_eq, h]

/-- A step after a pause. -/
theorem step_of_pause {imports : List Import} {pause : Pause}
    (hadvance : reading.focus.advance token place = none)
    (hpause : reading.focus.pause? = some (imports, pause))
    (hstep : pause.step (reading.addImports imports) token place = some next) :
    reading.step token place = some next := by
  rw [step_eq, hadvance, hpause]
  exact hstep

end Reading

end Interpose
