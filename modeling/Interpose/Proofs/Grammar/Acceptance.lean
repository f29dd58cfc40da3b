import Interpose.Proofs.Definition.Steps
import Interpose.Proofs.Grammar.Awaiting
import Interpose.Proofs.Grammar.Blocks

/-!
# Derivations are accepted

A reading awaits the tokens with which it can become a definition file. It takes the first token of
whatever it awaits and awaits the others after it, so what derives from the grammar is read.
-/

namespace Interpose

open Source Grammar Grammar.Expands

variable {token : Token} {place : Place} {more : List Placed} {forms : List Form}

/-- What follows an item of a definition file. -/
def fileRest : List Form := [.repeated [.item]]

/-- What follows the bases of a block. -/
def bodyRest : List Form := blockBody ++ fileRest

/-- What follows a method of a block. -/
def methodsRest : List Form := moreMethods ++ fileRest

/-- What follows the parameters of a method. -/
def endRest : List Form := rpcEnd ++ methodsRest

/-- What follows the annotations of a block. -/
def blockRest : List Form := blockHead ++ fileRest

/-- What follows the annotations of a method. -/
def methodRest : List Form := rpcHead ++ methodsRest

/-- What follows an annotation of something. -/
def moreNotes (forms : List Form) : List Form := .repeated [.node [.note]] :: forms

/-- The tokens of the rest of the open item and of the file. -/
def Focus.Awaits (tokens : List Placed) : Focus → Prop
  | .items [] => Expands fileRest tokens
  | .items (_ :: _) => Expands (moreNotes blockRest) tokens
  | .importing inner => inner.Awaits fileRest tokens
  | .annotating _ inner => inner.Awaits (moreNotes blockRest) tokens
  | .implName _ _ => Expands (.name :: .optional [.node [.bases]] :: bodyRest) tokens
  | .implHead _ => Expands (.optional [.node [.bases]] :: bodyRest) tokens
  | .bases _ => Expands (.listed (.node [.typeExpr]) :: .mark .closeParen :: bodyRest) tokens
  | .base _ inner => inner.Awaits (afterItem (.node [.typeExpr]) bodyRest) tokens
  | .basesDone _ => Expands bodyRest tokens
  | .methods _ [] => Expands methodsRest tokens
  | .methods _ (_ :: _) => Expands (moreNotes methodRest) tokens
  | .methodAnnotating _ _ inner => inner.Awaits (moreNotes methodRest) tokens
  | .methodName _ _ => Expands (.name :: .mark .openParen :: .listed (.node [.param]) ::
      .mark .closeParen :: endRest) tokens
  | .methodHead _ _ => Expands (.mark .openParen :: .listed (.node [.param]) ::
      .mark .closeParen :: endRest) tokens
  | .params _ _ => Expands (.listed (.node [.param]) :: .mark .closeParen :: endRest) tokens
  | .param _ _ _ _ => Expands (.optional [.mark .colon, .node [.typeExpr]] ::
      afterItem (.node [.param]) endRest) tokens
  | .paramType _ _ _ _ inner => inner.Awaits (afterItem (.node [.param]) endRest) tokens
  | .paramsDone _ _ => Expands endRest tokens
  | .result _ _ inner => inner.Awaits (.terminal .body :: methodsRest) tokens

/-- The tokens of what follows a pause. -/
def Pause.Awaits (tokens : List Placed) : Pause → Prop
  | .items notes => (Focus.items notes).Awaits tokens
  | .bases _ => Expands (afterItem (.node [.typeExpr]) bodyRest) tokens
  | .methods impl notes => (Focus.methods impl notes).Awaits tokens
  | .params _ _ => Expands (afterItem (.node [.param]) endRest) tokens
  | .body _ _ _ => Expands (.terminal .body :: methodsRest) tokens

/-- An annotation or what the annotations stand before comes next. -/
private theorem moreNotes_cons : Expands (moreNotes forms) (⟨token, place⟩ :: more) ↔
    (token = .mark .at ∧
      Expands (.node [.path] :: .optional [.node [.arguments]] :: moreNotes forms) more) ∨
      Expands forms (⟨token, place⟩ :: more) :=
  repeated_iff.trans (or_congr_left ((node_singleton rfl).trans mark_cons))

private theorem Focus.awaits_items (notes : List Annotation) (note : Annotation)
    (h : Expands (moreNotes blockRest) more) : (Focus.items (notes ++ [note])).Awaits more := by
  cases notes with
  | nil => exact h
  | cons first notes => exact h

private theorem Focus.awaits_methods (impl : OpenImpl) (notes : List Annotation)
    (note : Annotation) (h : Expands (moreNotes methodRest) more) :
    (Focus.methods impl (notes ++ [note])).Awaits more := by
  cases notes with
  | nil => exact h
  | cons first notes => exact h

namespace Reading

/-- An annotation of a block or its keyword is taken. -/
private theorem exists_stepItems_block (reading : Reading) (notes : List Annotation)
    (h : Expands (moreNotes blockRest) (⟨token, place⟩ :: more)) :
    ∃ next, reading.stepItems notes token place = some next ∧ next.focus.Awaits more := by
  rcases moreNotes_cons.mp h with ⟨rfl, hmore⟩ | hblock
  · exact ⟨_, rfl, hmore⟩
  · obtain ⟨rfl, hmore⟩ := word_cons.mp hblock
    cases notes with
    | nil => exact ⟨_, rfl, hmore⟩
    | cons first notes => exact ⟨_, rfl, hmore⟩

/-- Between items, the first token of an item is taken. -/
private theorem exists_stepItems (reading : Reading) (notes : List Annotation)
    (h : (Focus.items notes).Awaits (⟨token, place⟩ :: more)) :
    ∃ next, reading.stepItems notes token place = some next ∧ next.focus.Awaits more := by
  cases notes with
  | nil =>
    rcases repeated_iff.mp h with hitem | hend
    · obtain ⟨rule, hrule, alternative, halternative, hrest⟩ := node_iff.mp hitem
      simp only [List.mem_cons, List.not_mem_nil, or_false] at hrule
      rcases hrule with rfl | rfl | rfl
      · obtain rfl := List.mem_singleton.mp halternative
        obtain ⟨rfl, hmore⟩ := word_cons.mp hrest
        exact ⟨_, rfl, hmore⟩
      · obtain rfl := List.mem_singleton.mp halternative
        obtain ⟨rfl, hmore⟩ := word_cons.mp hrest
        exact ⟨_, rfl, hmore⟩
      · obtain rfl := List.mem_singleton.mp halternative
        exact exists_stepItems_block reading [] hrest
    · exact absurd hend nil_cons
  | cons first notes => exact exists_stepItems_block reading (first :: notes) h

/-- An annotation of a method or its keyword is taken. -/
private theorem exists_stepMethods_method (reading : Reading) (impl : OpenImpl)
    (notes : List Annotation)
    (h : Expands (moreNotes methodRest) (⟨token, place⟩ :: more)) :
    ∃ next, reading.stepMethods impl notes token place = some next ∧ next.focus.Awaits more := by
  rcases moreNotes_cons.mp h with ⟨rfl, hmore⟩ | hmethod
  · exact ⟨_, rfl, hmore⟩
  · obtain ⟨rfl, hmore⟩ := word_cons.mp hmethod
    exact ⟨_, rfl, hmore⟩

/-- Between methods, the first token of a method or the end of the block is taken. -/
private theorem exists_stepMethods (reading : Reading) (impl : OpenImpl) (notes : List Annotation)
    (h : (Focus.methods impl notes).Awaits (⟨token, place⟩ :: more)) :
    ∃ next, reading.stepMethods impl notes token place = some next ∧ next.focus.Awaits more := by
  cases notes with
  | nil =>
    rcases repeated_iff.mp h with hmethod | hend
    · exact exists_stepMethods_method reading impl [] ((node_singleton rfl).mp hmethod)
    · obtain ⟨rfl, hmore⟩ := mark_cons.mp hend
      exact ⟨_, rfl, hmore⟩
  | cons first notes => exact exists_stepMethods_method reading impl (first :: notes) h

/-- A comma after a base or the end of the bases is taken. -/
private theorem exists_stepBases (reading : Reading) (impl : OpenImpl)
    (h : Expands (afterItem (.node [.typeExpr]) bodyRest) (⟨token, place⟩ :: more)) :
    ∃ next, reading.stepBases impl token = some next ∧ next.focus.Awaits more := by
  rcases afterItem_cons.mp h with ⟨rfl, hrest⟩ | ⟨rfl, hrest⟩
  · exact ⟨_, rfl, hrest⟩
  · exact ⟨_, rfl, hrest⟩

/-- A comma after a parameter or the end of the parameters is taken. -/
private theorem exists_stepParams (reading : Reading) (impl : OpenImpl) (head : MethodHead)
    (h : Expands (afterItem (.node [.param]) endRest) (⟨token, place⟩ :: more)) :
    ∃ next, reading.stepParams impl head token = some next ∧ next.focus.Awaits more := by
  rcases afterItem_cons.mp h with ⟨rfl, hrest⟩ | ⟨rfl, hrest⟩
  · exact ⟨_, rfl, hrest⟩
  · exact ⟨_, rfl, hrest⟩

/-- A body is taken. -/
private theorem exists_stepBody (reading : Reading) (impl : OpenImpl) (head : MethodHead)
    (result : Option TypeExpr)
    (h : Expands (.terminal .body :: methodsRest) (⟨token, place⟩ :: more)) :
    ∃ next, reading.stepBody impl head result token place = some next ∧
      next.focus.Awaits more := by
  obtain ⟨htoken, hmore⟩ := terminal_cons.mp h
  obtain ⟨text, rfl⟩ := Terminal.takes_body.mp htoken
  exact ⟨_, rfl, hmore⟩

/-- After a pause, the first of the awaited tokens is taken. -/
private theorem exists_step_pause (reading : Reading) {pause : Pause}
    (h : pause.Awaits (⟨token, place⟩ :: more)) :
    ∃ next, pause.step reading token place = some next ∧ next.focus.Awaits more := by
  cases pause with
  | items notes => exact exists_stepItems reading notes h
  | bases impl => exact exists_stepBases reading impl h
  | methods impl notes => exact exists_stepMethods reading impl notes h
  | params impl head => exact exists_stepParams reading impl head h
  | body impl head result => exact exists_stepBody reading impl head result h

/-- No token that goes on with a path is taken after a pause. -/
private theorem ne_of_step_pause {reading next : Reading} {pause : Pause}
    (h : pause.step reading token place = some next) :
    token ≠ .mark .dot ∧ token ≠ .mark .openBracket ∧ token ≠ .mark .openParen := by
  refine ⟨?_, ?_, ?_⟩ <;>
    (rintro rfl; cases pause <;>
      simp [Pause.step, stepItems, stepBases, stepMethods, stepParams, stepBody] at h)

/-- Within a type, the first of the awaited tokens is taken: the type goes on with it, or it is
complete and the token is taken after the pause. -/
private theorem exists_step_type {reading : Reading} {inner : TypeReading}
    {item : TypeReading → Focus} {finish : TypeExpr → Pause}
    (hadvance : reading.focus.advance token place = (inner.step token place).map item)
    (hpause : reading.focus.pause? = inner.done?.map fun done => ([], finish done))
    (hitem : ∀ next, next.Awaits forms more → (item next).Awaits more)
    (hfinish : ∀ type, Expands forms (⟨token, place⟩ :: more) →
      (finish type).Awaits (⟨token, place⟩ :: more))
    (h : inner.Awaits forms (⟨token, place⟩ :: more)) :
    ∃ next, reading.step token place = some next ∧ next.focus.Awaits more := by
  rcases h.goes with ⟨next, hnext, hmore⟩ | ⟨type, htype, hmore⟩
  · rw [hnext] at hadvance
    exact ⟨_, step_of_advance hadvance, hitem next hmore⟩
  · obtain ⟨next, hstep, hrest⟩ := exists_step_pause (reading.addImports []) (hfinish type hmore)
    obtain ⟨hdot, hbracket, -⟩ := ne_of_step_pause hstep
    rw [htype.step_eq_none place token hdot hbracket] at hadvance
    rw [htype.done?] at hpause
    exact ⟨next, step_of_pause hadvance hpause hstep, hrest⟩

/-- Within an annotation, the first of the awaited tokens is taken. -/
private theorem exists_step_note {reading : Reading} {inner : AnnotationReading}
    {item : AnnotationReading → Focus} {finish : Annotation → Pause}
    (hadvance : reading.focus.advance token place = (inner.step token place).map item)
    (hpause : reading.focus.pause? = inner.done?.map fun done => ([], finish done))
    (hitem : ∀ next, next.Awaits forms more → (item next).Awaits more)
    (hfinish : ∀ note, Expands forms (⟨token, place⟩ :: more) →
      (finish note).Awaits (⟨token, place⟩ :: more))
    (h : inner.Awaits forms (⟨token, place⟩ :: more)) :
    ∃ next, reading.step token place = some next ∧ next.focus.Awaits more := by
  rcases h.goes with ⟨next, hnext, hmore⟩ | ⟨note, hnote, hmore⟩
  · rw [hnext] at hadvance
    exact ⟨_, step_of_advance hadvance, hitem next hmore⟩
  · obtain ⟨next, hstep, hrest⟩ := exists_step_pause (reading.addImports []) (hfinish note hmore)
    obtain ⟨hdot, -, hparen⟩ := ne_of_step_pause hstep
    rw [hnote.step_eq_none token hdot hparen] at hadvance
    rw [hnote.done?] at hpause
    exact ⟨next, step_of_pause hadvance hpause hstep, hrest⟩

/-- Within an import, the first of the awaited tokens is taken. -/
private theorem exists_step_import {reading : Reading} {inner : ImportReading}
    (hfocus : reading.focus = .importing inner)
    (h : inner.Awaits fileRest (⟨token, place⟩ :: more)) :
    ∃ next, reading.step token place = some next ∧ next.focus.Awaits more := by
  rcases h.goes with ⟨next, hnext, hmore⟩ | ⟨item, hitem, hmore⟩
  · have hadvance : reading.focus.advance token place = some (.importing next) := by
      rw [hfocus, Focus.advance, hnext, Option.map_some]
    exact ⟨_, step_of_advance hadvance, hmore⟩
  · obtain ⟨next, hstep, hrest⟩ := exists_stepItems (reading.addImports [item]) [] hmore
    have hnone : inner.step token = none := by
      refine hitem.step_eq_none token ?_ ?_ ?_ <;> (rintro rfl; simp [stepItems] at hstep)
    have hadvance : reading.focus.advance token place = none := by
      rw [hfocus, Focus.advance, hnone, Option.map_none]
    have hpause : reading.focus.pause? = some ([item], .items []) := by
      rw [hfocus, Focus.pause?, hitem.done?, Option.map_some]
    exact ⟨next, step_of_pause hadvance hpause hstep, hrest⟩

/-- The first of the awaited tokens is taken, and the others are awaited. -/
theorem exists_step_of_awaits
    {reading : Reading} (h : reading.focus.Awaits (⟨token, place⟩ :: more)) :
    ∃ next, reading.step token place = some next ∧ next.focus.Awaits more := by
  obtain ⟨imports, impls, focus⟩ := reading
  cases focus with
  | items notes => exact exists_stepItems _ notes h
  | importing inner => exact exists_step_import rfl h
  | annotating before inner =>
    exact exists_step_note rfl rfl (fun _ hmore => hmore)
      (fun note hmore => Focus.awaits_items before note hmore) h
  | implName notes span =>
    obtain ⟨⟨name, rfl⟩, hmore⟩ := name_cons.mp h
    exact ⟨_, rfl, hmore⟩
  | implHead impl =>
    rcases optional_iff.mp h with hbases | hbody
    · obtain ⟨rfl, hmore⟩ := mark_cons.mp ((node_singleton rfl).mp hbases)
      exact ⟨_, rfl, hmore⟩
    · obtain ⟨rfl, hmore⟩ := mark_cons.mp hbody
      exact ⟨_, rfl, hmore⟩
  | bases impl =>
    rcases optional_iff.mp h with hbase | hlast
    · obtain ⟨⟨name, rfl⟩, hmore⟩ := path_cons.mp ((node_singleton rfl).mp hbase)
      exact ⟨_, rfl, hmore⟩
    · obtain ⟨rfl, hmore⟩ := mark_cons.mp hlast
      exact ⟨_, rfl, hmore⟩
  | base impl inner =>
    exact exists_step_type rfl rfl (fun _ hmore => hmore) (fun _ hmore => hmore) h
  | basesDone impl =>
    obtain ⟨rfl, hmore⟩ := mark_cons.mp h
    exact ⟨_, rfl, hmore⟩
  | methods impl notes => exact exists_stepMethods _ impl notes h
  | methodAnnotating impl before inner =>
    exact exists_step_note rfl rfl (fun _ hmore => hmore)
      (fun note hmore => Focus.awaits_methods impl before note hmore) h
  | methodName impl notes =>
    obtain ⟨⟨name, rfl⟩, hmore⟩ := name_cons.mp h
    exact ⟨_, rfl, hmore⟩
  | methodHead impl head =>
    obtain ⟨rfl, hmore⟩ := mark_cons.mp h
    exact ⟨_, rfl, hmore⟩
  | params impl head =>
    rcases optional_iff.mp h with hparam | hlast
    · obtain ⟨⟨name, rfl⟩, hmore⟩ := name_cons.mp ((node_singleton rfl).mp hparam)
      exact ⟨_, rfl, hmore⟩
    · obtain ⟨rfl, hmore⟩ := mark_cons.mp hlast
      exact ⟨_, rfl, hmore⟩
  | param impl head name span =>
    rcases optional_iff.mp h with htype | hmore
    · obtain ⟨rfl, hmore⟩ := mark_cons.mp htype
      exact ⟨_, rfl, hmore⟩
    · rcases afterItem_cons.mp hmore with ⟨rfl, hrest⟩ | ⟨rfl, hrest⟩
      · exact ⟨_, rfl, hrest⟩
      · exact ⟨_, rfl, hrest⟩
  | paramType impl head name span inner =>
    exact exists_step_type rfl rfl (fun _ hmore => hmore) (fun _ hmore => hmore) h
  | paramsDone impl head =>
    rcases optional_iff.mp h with hresult | hbody
    · obtain ⟨rfl, hmore⟩ := mark_cons.mp ((node_singleton rfl).mp hresult)
      exact ⟨_, rfl, hmore⟩
    · obtain ⟨htoken, hmore⟩ := terminal_cons.mp hbody
      obtain ⟨text, rfl⟩ := Terminal.takes_body.mp htoken
      exact ⟨_, rfl, hmore⟩
  | result impl head inner =>
    exact exists_step_type rfl rfl (fun _ hmore => hmore) (fun _ hmore => hmore) h

/-- Where no token is awaited, the definition is complete. -/
theorem exists_done_of_awaits {reading : Reading} (h : reading.focus.Awaits []) :
    ∃ definition, reading.done? = some definition := by
  obtain ⟨imports, impls, focus⟩ := reading
  -- Every open item but an import still needs a terminal.
  have hword : .word .implWord ∈ moreNotes blockRest := by simp [moreNotes, blockRest, blockHead]
  have hbrace : .mark .closeBrace ∈ methodsRest := by simp [methodsRest, moreMethods]
  have hblock : .mark .closeBrace ∈ bodyRest := by simp [bodyRest, blockBody]
  have hrpc : .word .rpcWord ∈ moreNotes methodRest := by simp [moreNotes, methodRest, rpcHead]
  have hbody : .terminal .body ∈ endRest := by simp [endRest, rpcEnd]
  have hlast : ∀ {form : Form} {forms : List Form},
      .mark .closeParen ∈ .listed form :: .mark .closeParen :: forms := by simp
  have hmore : ∀ {form : Form} {forms : List Form},
      .mark .closeParen ∈ afterItem form forms := by simp [afterItem]
  cases focus with
  | items notes =>
    cases notes with
    | nil => exact ⟨_, rfl⟩
    | cons first notes => exact absurd hword (terminal_notMem h _)
  | importing inner =>
    obtain ⟨item, hitem⟩ := ImportReading.Awaits.exists_done h
    exact ⟨⟨imports ++ [item], impls⟩, by simp only [Reading.done?, hitem, Option.map_some]⟩
  | annotating before inner =>
    exact absurd hword (AnnotationReading.Awaits.terminal_notMem h _)
  | implName notes span => exact absurd List.mem_cons_self (terminal_notMem h _)
  | implHead impl => exact absurd (List.mem_cons_of_mem _ hblock) (terminal_notMem h _)
  | bases impl => exact absurd hlast (terminal_notMem h _)
  | base impl inner => exact absurd hmore (TypeReading.Awaits.terminal_notMem h _)
  | basesDone impl => exact absurd hblock (terminal_notMem h _)
  | methods impl notes =>
    cases notes with
    | nil => exact absurd hbrace (terminal_notMem h _)
    | cons first notes => exact absurd hrpc (terminal_notMem h _)
  | methodAnnotating impl before inner =>
    exact absurd hrpc (AnnotationReading.Awaits.terminal_notMem h _)
  | methodName impl notes => exact absurd List.mem_cons_self (terminal_notMem h _)
  | methodHead impl head => exact absurd List.mem_cons_self (terminal_notMem h _)
  | params impl head => exact absurd hlast (terminal_notMem h _)
  | param impl head name span => exact absurd (List.mem_cons_of_mem _ hmore) (terminal_notMem h _)
  | paramType impl head name span inner =>
    exact absurd hmore (TypeReading.Awaits.terminal_notMem h _)
  | paramsDone impl head => exact absurd hbody (terminal_notMem h _)
  | result impl head inner =>
    exact absurd List.mem_cons_self (TypeReading.Awaits.terminal_notMem h _)

/-- A run takes whatever is awaited, and then the definition is complete. -/
theorem exists_run_of_awaits {reading : Reading} {tokens : List Placed}
    (h : reading.focus.Awaits tokens)
    (last : Place) : ∃ next after definition, reading.run last tokens = .ok (next, after) ∧
      next.done? = some definition := by
  induction tokens generalizing reading last with
  | nil =>
    obtain ⟨definition, hdone⟩ := exists_done_of_awaits h
    exact ⟨reading, last, definition, rfl, hdone⟩
  | cons placed tokens ih =>
    obtain ⟨next, hstep, hmore⟩ := exists_step_of_awaits h
    obtain ⟨final, after, definition, hrun, hdone⟩ := ih hmore placed.place
    exact ⟨final, after, definition, by simp only [Reading.run, hstep, hrun], hdone⟩

end Reading

/-- Tokens that derive from the grammar spell a definition. -/
theorem exists_ofScan_of_derives {scan : Scan} {trees : List ParseTree} (hstuck : scan.stuck = none)
    (hderives : Rule.start.Derives trees) (hyields : yields trees = scan.tokens) :
    ∃ definition, Definition.ofScan scan = .ok definition := by
  obtain ⟨alternative, halternative, htrees⟩ := hderives
  obtain rfl := List.mem_singleton.mp halternative
  have hexpands : Expands fileRest scan.tokens := hyields ▸ htrees.expands
  have hawaits : Reading.start.focus.Awaits scan.tokens := hexpands
  obtain ⟨next, after, definition, hrun, hdone⟩ := Reading.exists_run_of_awaits hawaits .start
  exact ⟨definition, Definition.ofScan_eq_ok_iff.mpr ⟨hstuck, next, after, hrun, hdone⟩⟩

end Interpose
