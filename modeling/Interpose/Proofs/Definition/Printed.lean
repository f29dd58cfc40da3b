import Interpose.Proofs.Definition.Feeding

/-!
# Reading printed definitions

The methods, the blocks and the imports of a printed definition are read one after the other. The
main statement gives the definition that the scanned text spells: the printed one, with every token
at its own place and every body between its fences.
-/

namespace Interpose

open Source

variable {place : Place} {definition : Definition Fenced} {rest : List Char}

/-- One reading goes on as another one does, wherever that goes on. -/
structure Reading.Stands (place : Place) (reading target : Reading) : Prop where
  step : ∀ token next, target.step token place = some next → reading.step token place = some next
  done? : ∀ definition, target.done? = some definition → reading.done? = some definition

theorem Reading.Reads.of_stands {reading target : Reading} {mode : Mode} {cs : List Char}
    (hstands : Stands place reading target) (h : target.Reads place definition mode cs) :
    reading.Reads place definition mode cs := by
  obtain ⟨last, hfeeds, hdone⟩ := h
  cases hfeeds with
  | done hgap => exact ⟨reading, .done hgap, hstands.done? _ hdone⟩
  | next hmunch hstep hrest => exact ⟨last, .next hmunch (hstands.step _ _ hstep) hrest, hdone⟩

/-- Items with a line end after each of them. -/
def lined {Item : Type} (text : Item → String) (items : List Item) : List Char :=
  items.flatMap fun item => (text item).toList ++ ['\n']

@[simp] theorem lined_nil {Item : Type} (text : Item → String) : lined text [] = [] := rfl

@[simp] theorem lined_cons {Item : Type} (text : Item → String) (item : Item) (items : List Item) :
    lined text (item :: items) = (text item).toList ++ '\n' :: lined text items := by
  simp [lined]

/-! ## Annotations -/

/-- Printed annotations are read one after the other. -/
theorem reads_annotations (between : List Annotation → Reading)
    (within : List Annotation → AnnotationReading → Reading)
    (hat : ∀ read, (between read).step (.mark .at) place =
      some (within read (.start (.ofPlace place))))
    (hcarry : ∀ read, Carries place AnnotationReading.step (within read))
    (hstands : ∀ read note inner, AnnotationReading.Settled place note inner →
      Reading.Stands place (within read inner) (between (read ++ [note])))
    {notes : List Annotation} (hnotes : ∀ note ∈ notes, note.WellFormed) (read : List Annotation)
    (h : (between (read ++ notes.map (·.mapSpan (Span.moveTo place)))).Reads place definition
      .operator rest) :
    (between read).Reads place definition .operator (lined Annotation.line notes ++ rest) := by
  induction notes generalizing read with
  | nil => simpa using h
  | cons note notes ih =>
    have hsign : lined Annotation.line (note :: notes) ++ rest =
        '@' :: (note.text.toList ++ ('\n' :: (lined Annotation.line notes ++ rest))) := by simp
    have hnote : note.WellFormed := hnotes note List.mem_cons_self
    rw [hsign]
    refine .mark .at (hat read) ?_
    refine reads_annotation (hcarry read) hnote (endsName_cons (by decide) _) fun inner hinner => ?_
    refine .space (by decide) ?_
    refine .of_stands (hstands read _ inner hinner) ?_
    refine ih (fun note hmem => hnotes note (List.mem_cons_of_mem _ hmem)) _ ?_
    simpa using h

/-- Between items, annotations for the next block are read. -/
theorem reads_items_annotations (imports : List Import) (impls : List (ImplDef Fenced))
    {notes : List Annotation} (hnotes : ∀ note ∈ notes, note.WellFormed)
    (h : Reading.Reads place definition .operator rest
      ⟨imports, impls, .items (notes.map (·.mapSpan (Span.moveTo place)))⟩) :
    Reading.Reads place definition .operator (lined Annotation.line notes ++ rest)
      ⟨imports, impls, .items []⟩ := by
  refine reads_annotations (fun notes => ⟨imports, impls, .items notes⟩)
    (fun read inner => ⟨imports, impls, .annotating read inner⟩) (fun read => rfl) ?_ ?_
    hnotes [] h
  · intro read token inner next hstep
    simp [Reading.step, hstep, Reading.go]
  · intro read note inner hinner
    refine ⟨fun token next hnext => ?_, fun definition hdone => ?_⟩
    · have hdot : token ≠ .mark .dot := by
        rintro rfl
        simp [Reading.step, Reading.stepItems] at hnext
      have hparen : token ≠ .mark .openParen := by
        rintro rfl
        simp [Reading.step, Reading.stepItems] at hnext
      have hnone := hinner.step_eq_none token hdot hparen
      simp only [Reading.step, hnone, hinner.done?]
      exact hnext
    · simp [Reading.done?] at hdone

/-- Between methods, annotations for the next one are read. -/
theorem reads_methods_annotations (reading : Reading) (impl : OpenImpl)
    {notes : List Annotation} (hnotes : ∀ note ∈ notes, note.WellFormed)
    (h : (reading.go (.methods impl (notes.map (·.mapSpan (Span.moveTo place))))).Reads place
      definition .operator rest) :
    (reading.go (.methods impl [])).Reads place definition .operator
      (lined Annotation.line notes ++ rest) := by
  refine reads_annotations (fun notes => reading.go (.methods impl notes))
    (fun read inner => reading.go (.methodAnnotating impl read inner)) (fun read => rfl)
    ?_ ?_ hnotes [] h
  · intro read token inner next hstep
    simp [Reading.step, hstep, Reading.go]
  · intro read note inner hinner
    refine ⟨fun token next hnext => ?_, fun definition hdone => ?_⟩
    · have hdot : token ≠ .mark .dot := by
        rintro rfl
        simp [Reading.step, Reading.stepMethods, Reading.go] at hnext
      have hparen : token ≠ .mark .openParen := by
        rintro rfl
        simp [Reading.step, Reading.stepMethods, Reading.go] at hnext
      have hnone := hinner.step_eq_none token hdot hparen
      simp only [Reading.step, Reading.go, hnone, hinner.done?]
      exact hnext
    · simp [Reading.done?, Reading.go] at hdone

/-! ## Methods -/

/-- A parameter is complete: a further one follows, or the list of parameters ends. -/
structure AfterParam (place : Place) (reading base : Reading) (impl : OpenImpl)
    (head : MethodHead) : Prop where
  comma : reading.step (.mark .comma) place = some (base.go (.params impl head))
  closeParen : reading.step (.mark .closeParen) place = some (base.go (.paramsDone impl head))

/-- A printed parameter is read. -/
theorem reads_param {param : Param} (hparam : param.WellFormed) (reading : Reading)
    (impl : OpenImpl) (head : MethodHead) (hrest : EndsName rest)
    (h : ∀ next, AfterParam place next reading impl
        (head.add (param.mapSpan (Span.moveTo place))) →
      next.Reads place definition .operator rest) :
    (reading.go (.params impl head)).Reads place definition .operand
      (param.text.toList ++ rest) := by
  obtain ⟨name, type, span⟩ := param
  cases type with
  | none =>
    refine .name (by decide) hparam.name hrest (by simp) rfl (h _ ⟨rfl, rfl⟩)
  | some type =>
    have htext : (Param.text ⟨name, some type, span⟩).toList ++ rest =
        name.toList ++ (':' :: ' ' :: (type.canonical.toList ++ rest)) := by
      simp [Param.text]
    rw [htext]
    refine .name (by decide) hparam.name (endsName_cons (by decide) _) (by simp) rfl ?_
    refine .mark .colon rfl (.space (by decide) ?_)
    have hcarry : Carries place TypeReading.step fun inner =>
        reading.go (.paramType impl head name (.ofPlace place) inner) := by
      intro token inner next hstep
      simp [Reading.step, Reading.go, hstep]
    refine reads_type hcarry (hparam.type type rfl) [] rest hrest fun inner hinner => h _ ⟨?_, ?_⟩
    · have hnone := hinner.step_eq_none place (.mark .comma) (by simp) (by simp)
      simp only [Reading.step, Reading.go, hnone, hinner.done?]
      rfl
    · have hnone := hinner.step_eq_none place (.mark .closeParen) (by simp) (by simp)
      simp only [Reading.step, Reading.go, hnone, hinner.done?]
      rfl

/-- Printed parameters are read up to the parenthesis. -/
theorem reads_params {params : List Param} (hparams : ∀ param ∈ params, param.WellFormed)
    (reading : Reading) (impl : OpenImpl) (head : MethodHead)
    (h : (reading.go (.paramsDone impl { head with
        params := head.params ++ params.map (·.mapSpan (Span.moveTo place)) })).Reads place
      definition .operator rest) :
    (reading.go (.params impl head)).Reads place definition .operand
      ((", ".intercalate (params.map Param.text)).toList ++ ')' :: rest) := by
  cases params with
  | nil =>
    have hdone : (reading.go (.paramsDone impl head)).Reads place definition .operator rest := by
      simpa using h
    exact .closeParen rfl hdone
  | cons first params =>
    have hrest : EndsNumber (')' :: rest) := endsNumber_cons (by decide) (by decide) _
    refine reads_separated Param.text (Param.mapSpan (Span.moveTo place))
      (fun read => reading.go (.params impl { head with params := read }))
      (fun read next => AfterParam place next reading impl { head with params := read })
      (fun read next hnext => hnext.comma) ?_ head.params hrest
      fun next hnext => .mark .closeParen hnext.closeParen h
    intro param hmem read rest hrest h
    exact reads_param (hparams param hmem) reading impl { head with params := read } hrest.1 h

/-- The body of a printed method as it is read: with the line ends next to its fences. -/
def printedBody (place : Place) (body : String) : Fenced :=
  ⟨String.ofList ('\n' :: body.toList ++ ['\n']), .ofPlace place⟩

/-- A printed method as it is read. -/
def MethodDef.fenced (place : Place) (method : MethodDef String) : MethodDef Fenced where
  name := method.name
  params := method.params.map (·.mapSpan (Span.moveTo place))
  result := method.result.map (·.mapSpan (Span.moveTo place))
  body := printedBody place method.body
  annotations := method.annotations.map (·.mapSpan (Span.moveTo place))
  span := .ofPlace place

/-- The head of a method is complete: its body follows. -/
def AfterHead (place : Place) (reading base : Reading) (impl : OpenImpl) (head : MethodHead)
    (result : Option TypeExpr) : Prop :=
  ∀ text, reading.step (.body text) place = base.stepBody impl head result (.body text) place

/-- The printed result of a method is read up to its body. -/
theorem reads_result {result : Option TypeExpr} (hresult : ∀ type ∈ result, type.WellNamed)
    (reading : Reading) (impl : OpenImpl) (head : MethodHead)
    (h : ∀ next, AfterHead place next reading impl head
        (result.map (·.mapSpan (Span.moveTo place))) →
      next.Reads place definition .operator rest) :
    (reading.go (.paramsDone impl head)).Reads place definition .operator
      ((MethodDef.resultText result).toList ++ ' ' :: rest) := by
  cases result with
  | none => exact .space (by decide) (h _ fun text => rfl)
  | some type =>
    have htext : (MethodDef.resultText (some type)).toList ++ ' ' :: rest =
        ' ' :: '-' :: '>' :: ' ' :: (type.canonical.toList ++ ' ' :: rest) := by
      simp [MethodDef.resultText]
    rw [htext]
    refine .space (by decide) (.mark .arrow rfl (.space (by decide) ?_))
    have hcarry : Carries place TypeReading.step fun inner =>
        reading.go (.result impl head inner) := by
      intro token inner next hstep
      simp [Reading.step, Reading.go, hstep]
    refine reads_type hcarry (hresult type rfl) [] _ (endsName_cons (by decide) _)
      fun inner hinner => .space (by decide) (h _ fun text => ?_)
    have hnone := hinner.step_eq_none place (.body text) (by simp) (by simp)
    simp only [Reading.step, Reading.go, hnone, hinner.done?]
    rfl

/-- A printed body is read between its fences. -/
theorem reads_body {body : String} (hbody : ¬ fence <:+: body.toList) {reading base : Reading}
    {impl : OpenImpl} {head : MethodHead} {result : Option TypeExpr}
    (hafter : AfterHead place reading base impl head result)
    (h : (base.go (.methods { impl with
        methods := impl.methods ++ [head.method result (printedBody place body)] } [])).Reads place
      definition .operator rest) :
    reading.Reads place definition .operator
      (fence ++ ('\n' :: (body.toList ++ '\n' :: (fence ++ '\n' :: rest)))) := by
  have hline : ¬ fence <:+: '\n' :: body.toList := by
    rw [List.infix_cons_iff]
    rintro (hfront | hinner)
    · obtain ⟨tail, htail⟩ := hfront
      simp [fence] at htail
    · exact hbody hinner
  have hmunch := munch_body hline ('\n' :: rest)
  simp only [List.cons_append, List.append_assoc] at hmunch
  exact .munch hmunch (hafter _) (.space (by decide) h)

/-- A printed method is read. -/
theorem reads_method {method : MethodDef String} (hmethod : method.WellFormed IsClean)
    (reading : Reading)
    (impl : OpenImpl)
    (h : (reading.go (.methods { impl with
        methods := impl.methods ++ [method.fenced place] } [])).Reads place definition .operator
      rest) :
    (reading.go (.methods impl [])).Reads place definition .operator
      (lined id method.printed ++ rest) := by
  have htext : lined id method.printed ++ rest =
      lined Annotation.line method.annotations ++ (Keyword.rpcWord.spelling ++ (' ' ::
        (method.name.toList ++ ('(' :: ((", ".intercalate (method.params.map Param.text)).toList ++
          ')' :: ((MethodDef.resultText method.result).toList ++ ' ' :: (fence ++ ('\n' ::
            (method.body.toList ++ '\n' :: (fence ++ '\n' :: rest)))))))))) := by
    simp [MethodDef.printed, MethodDef.headLine, lined, Keyword.spelling, fence, List.flatMap_map]
  rw [htext]
  refine reads_methods_annotations reading impl hmethod.annotations ?_
  refine .word .rpcWord rfl (.space (by decide) ?_)
  refine .name (by decide) hmethod.name (endsName_cons (by decide) _) (by simp [Mode.after]) rfl ?_
  refine .mark .openParen rfl (reads_params hmethod.params reading impl _ ?_)
  refine reads_result hmethod.result reading impl _ fun next hnext => ?_
  exact reads_body hmethod.body.unfenced hnext h

/-- Printed methods are read one after the other. -/
theorem reads_methods {methods : List (MethodDef String)}
    (hmethods : ∀ method ∈ methods, method.WellFormed IsClean) (reading : Reading) (impl : OpenImpl)
    (h : (reading.go (.methods { impl with
        methods := impl.methods ++ methods.map (·.fenced place) } [])).Reads place definition
      .operator rest) :
    (reading.go (.methods impl [])).Reads place definition .operator
      (lined id (methods.flatMap MethodDef.printed) ++ rest) := by
  induction methods generalizing impl with
  | nil => simpa using h
  | cons method methods ih =>
    have happend : lined id ((method :: methods).flatMap MethodDef.printed) ++ rest =
        lined id method.printed ++ (lined id (methods.flatMap MethodDef.printed) ++ rest) := by
      simp [lined]
    rw [happend]
    refine reads_method (hmethods method List.mem_cons_self) reading impl ?_
    refine ih (fun method hmem => hmethods method (List.mem_cons_of_mem _ hmem)) _ ?_
    simpa using h

/-! ## Blocks -/

/-- A base is complete: a further one follows, or the list of bases ends. -/
structure AfterBase (place : Place) (reading base : Reading) (impl : OpenImpl) : Prop where
  comma : reading.step (.mark .comma) place = some (base.go (.bases impl))
  closeParen : reading.step (.mark .closeParen) place = some (base.go (.basesDone impl))

/-- A printed base is read. -/
theorem reads_base {type : TypeExpr} (htype : type.WellNamed) (reading : Reading)
    (impl : OpenImpl) (hrest : EndsName rest)
    (h : ∀ next, AfterBase place next reading { impl with
        bases := impl.bases ++ [type.mapSpan (Span.moveTo place)] } →
      next.Reads place definition .operator rest) :
    (reading.go (.bases impl)).Reads place definition .operand (type.canonical.toList ++ rest) := by
  -- Before a base the list can still end, but a base begins as any type does.
  have hstands : Reading.Stands place (reading.go (.bases impl))
      (reading.go (.base impl (.start []))) := by
    refine ⟨fun token next hnext => ?_, fun definition hdone => ?_⟩
    · cases token with
      | name name => exact hnext
      | _ => simp [Reading.step, Reading.go, TypeReading.step, TypeReading.done?] at hnext
    · simp [Reading.done?, Reading.go] at hdone
  have hcarry : Carries place TypeReading.step fun inner => reading.go (.base impl inner) := by
    intro token inner next hstep
    simp [Reading.step, Reading.go, hstep]
  refine .of_stands hstands ?_
  refine reads_type hcarry htype [] rest hrest fun inner hinner => h _ ⟨?_, ?_⟩
  · have hnone := hinner.step_eq_none place (.mark .comma) (by simp) (by simp)
    simp only [Reading.step, Reading.go, hnone, hinner.done?]
    rfl
  · have hnone := hinner.step_eq_none place (.mark .closeParen) (by simp) (by simp)
    simp only [Reading.step, Reading.go, hnone, hinner.done?]
    rfl

/-- Printed bases are read up to the parenthesis. -/
theorem reads_bases {bases : List TypeExpr} (hne : bases ≠ [])
    (hbases : ∀ base ∈ bases, base.WellNamed) (reading : Reading) (impl : OpenImpl)
    (h : (reading.go (.basesDone { impl with
        bases := impl.bases ++ bases.map (·.mapSpan (Span.moveTo place)) })).Reads place definition
      .operator rest) :
    (reading.go (.bases impl)).Reads place definition .operand
      ((", ".intercalate (bases.map (·.canonical))).toList ++ ')' :: rest) := by
  obtain ⟨first, bases, rfl⟩ := List.exists_cons_of_ne_nil hne
  have hrest : EndsNumber (')' :: rest) := endsNumber_cons (by decide) (by decide) _
  refine reads_separated TypeExpr.canonical (TypeExpr.mapSpan (Span.moveTo place))
    (fun read => reading.go (.bases { impl with bases := read }))
    (fun read next => AfterBase place next reading { impl with bases := read })
    (fun read next hnext => hnext.comma) ?_ impl.bases hrest
    fun next hnext => .mark .closeParen hnext.closeParen h
  intro base hmem read rest hrest h
  exact reads_base (hbases base hmem) reading { impl with bases := read } hrest.1 h

/-- A printed block as it is read. -/
def ImplDef.fenced (place : Place) (impl : ImplDef String) : ImplDef Fenced where
  name := impl.name
  bases := impl.bases.map (·.mapSpan (Span.moveTo place))
  methods := impl.methods.map (·.fenced place)
  annotations := impl.annotations.map (·.mapSpan (Span.moveTo place))
  span := .ofPlace place

/-- The head of a printed block is read after its annotations. -/
theorem reads_implHead {impl : ImplDef String} (himpl : impl.WellFormed IsClean)
    (imports : List Import)
    (impls : List (ImplDef Fenced))
    (h : Reading.Reads place definition .operator rest
      ⟨imports, impls, .methods { impl.fenced place with methods := [] } []⟩) :
    Reading.Reads place definition .operator (impl.headLine.toList ++ '\n' :: rest)
      ⟨imports, impls, .items (impl.annotations.map (·.mapSpan (Span.moveTo place)))⟩ := by
  have hword : Reading.step (.word .implWord) place
      ⟨imports, impls, .items (impl.annotations.map (·.mapSpan (Span.moveTo place)))⟩ =
      some ⟨imports, impls, .implName (impl.annotations.map (·.mapSpan (Span.moveTo place)))
        (.ofPlace place)⟩ := by
    cases impl.annotations <;> rfl
  have htext : impl.headLine.toList ++ '\n' :: rest = Keyword.implWord.spelling ++ (' ' ::
      (impl.name.toList ++ ((ImplDef.basesText impl.bases).toList ++ ' ' :: '\x7b' ::
        '\n' :: rest))) := by
    simp [ImplDef.headLine, Keyword.spelling]
  rw [htext]
  refine .word .implWord hword (.space (by decide) ?_)
  cases hb : impl.bases with
  | nil =>
    refine .name (by decide) himpl.name (endsName_cons (by decide) _) (by simp [Mode.after]) rfl ?_
    refine .space (by decide) (.mark .openBrace rfl (.space (by decide) ?_))
    simpa [ImplDef.fenced, hb, Reading.go, Mode.after] using h
  | cons first bases =>
    have hbases : (ImplDef.basesText (first :: bases)).toList ++ ' ' :: '\x7b' :: '\n' :: rest =
        '(' :: ((", ".intercalate ((first :: bases).map (·.canonical))).toList ++
          ')' :: ' ' :: '\x7b' :: '\n' :: rest) := by
      simp [ImplDef.basesText]
    rw [hbases]
    refine .name (by decide) himpl.name (endsName_cons (by decide) _) (by simp [Mode.after]) rfl ?_
    refine .mark .openParen rfl (reads_bases (by simp) (hb ▸ himpl.bases) _ _ ?_)
    refine .space (by decide) (.mark .openBrace rfl (.space (by decide) ?_))
    simpa [ImplDef.fenced, hb, Reading.go, Mode.after] using h

/-- A printed block is read. -/
theorem reads_impl {impl : ImplDef String} (himpl : impl.WellFormed IsClean) (imports : List Import)
    (impls : List (ImplDef Fenced))
    (h : Reading.Reads place definition .operator rest
      ⟨imports, impls ++ [impl.fenced place], .items []⟩) :
    Reading.Reads place definition .operator (lined id impl.printed ++ rest)
      ⟨imports, impls, .items []⟩ := by
  have htext : lined id impl.printed ++ rest = lined Annotation.line impl.annotations ++
      (impl.headLine.toList ++ '\n' :: (lined id (impl.methods.flatMap MethodDef.printed) ++
        '\x7d' :: '\n' :: rest)) := by
    simp [ImplDef.printed, lined, List.flatMap_map]
  rw [htext]
  refine reads_items_annotations imports impls himpl.annotations ?_
  refine reads_implHead himpl imports impls ?_
  refine reads_methods himpl.methods ⟨imports, impls, .items []⟩ _ ?_
  exact .mark .closeBrace rfl (.space (by decide) h)

/-- Printed blocks are read one after the other. -/
theorem reads_impls {blocks : List (ImplDef String)}
    (hblocks : ∀ impl ∈ blocks, impl.WellFormed IsClean)
    (imports : List Import) (impls : List (ImplDef Fenced))
    (h : Reading.Reads place definition .operator rest
      ⟨imports, impls ++ blocks.map (·.fenced place), .items []⟩) :
    Reading.Reads place definition .operator (lined id (blocks.flatMap ImplDef.printed) ++ rest)
      ⟨imports, impls, .items []⟩ := by
  induction blocks generalizing impls with
  | nil => simpa using h
  | cons impl blocks ih =>
    have happend : lined id ((impl :: blocks).flatMap ImplDef.printed) ++ rest =
        lined id impl.printed ++ (lined id (blocks.flatMap ImplDef.printed) ++ rest) := by
      simp [lined]
    rw [happend]
    refine reads_impl (hblocks impl List.mem_cons_self) imports impls ?_
    refine ih (fun impl hmem => hblocks impl (List.mem_cons_of_mem _ hmem)) _ ?_
    simpa using h

/-! ## Definitions -/

/-- Printed imports are read one after the other. -/
theorem reads_imports {items : List Import} (hitems : ∀ item ∈ items, IsImport item.text)
    (imports : List Import) (impls : List (ImplDef Fenced))
    (h : Reading.Reads place definition .operator rest ⟨imports ++ items, impls, .items []⟩) :
    Reading.Reads place definition .operator (lined Import.text items ++ rest)
      ⟨imports, impls, .items []⟩ := by
  induction items generalizing imports with
  | nil => simpa using h
  | cons item items ih =>
    rw [lined_cons, List.append_assoc, List.cons_append]
    have hcarry : Carries place (fun token _ => ImportReading.step token) fun inner =>
        ⟨imports, impls, .importing inner⟩ := by
      intro token inner next hstep
      simp [Reading.step, Reading.go, hstep]
    refine reads_import hcarry (hitems item List.mem_cons_self)
      (endsNumber_cons (by decide) (by decide) _) rfl rfl fun inner hinner => .space (by decide) ?_
    have hstands : Reading.Stands place ⟨imports, impls, .importing inner⟩
        ⟨imports ++ [item], impls, .items []⟩ := by
      refine ⟨fun token next hnext => ?_, fun definition hdone => ?_⟩
      · have hnone : inner.step token = none := by
          refine hinner.step_eq_none token ?_ ?_ ?_ <;>
          · rintro rfl
            simp [Reading.step, Reading.stepItems] at hnext
        simp only [Reading.step, hnone, hinner.done?]
        exact hnext
      · simpa [Reading.done?, hinner.done?] using hdone
    refine .of_stands hstands (ih (fun item hmem => hitems item (List.mem_cons_of_mem _ hmem)) _ ?_)
    simpa using h

/-- A printed definition as it is read. -/
def Definition.fenced (place : Place) (definition : Definition String) : Definition Fenced :=
  ⟨definition.imports, definition.impls.map (·.fenced place)⟩

/-- A printed definition is read from its first token to its last. -/
theorem reads_print {definition : Definition String} (h : definition.WellFormed) (place : Place) :
    Reading.start.Reads place (definition.fenced place) .operator definition.print.toList := by
  have htext : definition.print.toList = lined Import.text definition.imports ++
      (lined id (definition.impls.flatMap ImplDef.printed) ++ []) := by
    simp [Definition.print, textOfLines, lined, List.flatMap_map]
  rw [htext]
  refine reads_imports h.imports [] [] ?_
  refine reads_impls h.impls _ [] ?_
  exact ⟨_, .done rfl, rfl⟩

end Interpose
