import Interpose.Definition.Parse
import Interpose.Proofs.Definition.Steps
import Interpose.Proofs.Grammar.Blocks
import Interpose.Proofs.Grammar.Imports
import Interpose.Proofs.Source.Pieces

/-!
# Derivations of definition files

Whatever has been read of a definition file is what some trees stand for whose tokens are those that
were read. Every token that is taken keeps this, so a definition that is read is what a derivation
of its tokens stands for.
-/

namespace Interpose

open Source Grammar

variable {token : Token} {place : Place}

/-- What has been read of the open item. -/
def Focus.Spells (tokens : List Placed) : Focus → Prop
  | .items notes => ∃ trees, tokens = yields trees ∧ Noted .implBlock blockHead notes trees
  | .importing inner => inner.Spells tokens
  | .annotating before inner => ∃ trees more, tokens = yields trees ++ more ∧
      Noted .implBlock blockHead before trees ∧ inner.Spells more
  | .implName notes span => ∃ trees place,
      tokens = yields trees ++ [⟨.word .implWord, place⟩] ∧ Noted .implBlock blockHead notes trees ∧
      span = spanOf (trees ++ [.leaf ⟨.word .implWord, place⟩])
  | .implHead impl => ∃ trees, tokens = yields trees ∧ impl.bases = [] ∧
      impl.Spells (.optional [.node [.bases]] :: blockBody) trees
  | .bases impl => ∃ trees list, tokens = yields trees ++ yields list ∧ impl.Ready trees list
  | .base impl inner => ∃ trees list more, tokens = yields trees ++ yields list ++ more ∧
      impl.Ready trees list ∧ inner.Spells more
  | .basesDone impl => ∃ trees, tokens = yields trees ∧ impl.Spells blockBody trees
  | .methods impl notes => ∃ trees list, tokens = yields trees ++ yields list ∧
      impl.Spells moreMethods trees ∧ Noted .rpc rpcHead notes list
  | .methodAnnotating impl before inner => ∃ trees list more,
      tokens = yields trees ++ yields list ++ more ∧ impl.Spells moreMethods trees ∧
      Noted .rpc rpcHead before list ∧ inner.Spells more
  | .methodName impl notes => ∃ trees list place,
      tokens = yields trees ++ yields list ++ [⟨.word .rpcWord, place⟩] ∧
      impl.Spells moreMethods trees ∧ Noted .rpc rpcHead notes list
  | .methodHead impl head => ∃ trees list, tokens = yields trees ++ yields list ∧
      impl.Spells moreMethods trees ∧ head.Spells
        (.mark .openParen :: .listed (.node [.param]) :: .mark .closeParen :: rpcEnd) list
  | .params impl head => ∃ trees list, tokens = yields trees ++ yields list ∧
      impl.Spells moreMethods trees ∧ head.Ready list
  | .param impl head name span => ∃ trees list place,
      tokens = yields trees ++ yields list ++ [⟨.name name, place⟩] ∧ span = .ofPlace place ∧
      impl.Spells moreMethods trees ∧ head.Ready list
  | .paramType impl head name span inner => ∃ trees list place other more,
      tokens = yields trees ++ yields list ++
        ([⟨.name name, place⟩, ⟨.mark .colon, other⟩] ++ more) ∧ span = .ofPlace place ∧
      impl.Spells moreMethods trees ∧ head.Ready list ∧ inner.Spells more
  | .paramsDone impl head => ∃ trees list, tokens = yields trees ++ yields list ∧
      impl.Spells moreMethods trees ∧ head.Spells rpcEnd list
  | .result impl head inner => ∃ trees list place more,
      tokens = yields trees ++ yields list ++ ⟨.mark .arrow, place⟩ :: more ∧
      impl.Spells moreMethods trees ∧ head.Spells rpcEnd list ∧ inner.Spells more

/-- What has been read before a pause, besides the complete items. -/
def Pause.Spells (tokens : List Placed) : Pause → Prop
  | .items notes => ∃ trees, tokens = yields trees ∧ Noted .implBlock blockHead notes trees
  | .bases impl => ∃ trees list, tokens = yields trees ++ yields list ∧
      impl.Listed (afterItem (.node [.typeExpr]) []) trees list
  | .methods impl notes => ∃ trees list, tokens = yields trees ++ yields list ∧
      impl.Spells moreMethods trees ∧ Noted .rpc rpcHead notes list
  | .params impl head => ∃ trees list, tokens = yields trees ++ yields list ∧
      impl.Spells moreMethods trees ∧ head.Spells (afterItem (.node [.param]) rpcEnd) list
  | .body impl head result => ∃ trees list, tokens = yields trees ++ yields list ∧
      impl.Spells moreMethods trees ∧ head.Ended result list

/-- The complete items of a definition file, as children of its tree. -/
structure Reading.Complete (reading : Reading) (trees : List ParseTree) : Prop where
  goes : Goes .start trees [.repeated [.item]]
  image : definitionOf trees = ⟨reading.imports, reading.impls⟩

/-- What has been read of a definition file. -/
def Reading.Spells (tokens : List Placed) (reading : Reading) : Prop :=
  ∃ trees more, tokens = yields trees ++ more ∧ reading.Complete trees ∧ reading.focus.Spells more

/-! ## Open items -/

/-- Before an item, no annotation has been read. -/
theorem noted_nil : Noted .implBlock blockHead [] [] := .nil (by simp [Rule.alternatives, blockHead,
  blockBody])

/-- Before a method, no annotation has been read. -/
theorem noted_nil_rpc : Noted .rpc rpcHead [] [] := .nil (by simp [Rule.alternatives, rpcHead,
  rpcEnd])

/-- What has been read of the open item goes on with the token with which it advances. -/
theorem Focus.Spells.advances {focus next : Focus} {tokens : List Placed}
    (h : focus.Spells tokens) (hnext : Advances place token focus next) :
    next.Spells (tokens ++ [⟨token, place⟩]) := by
  have hopen : TypeReading.Spells [] (.start []) := .nil
  cases hnext with
  | importing hinner => exact ImportReading.Spells.step h hinner place
  | annotating hinner =>
    obtain ⟨list, rest, rfl, hnotes, hspells⟩ := h
    exact ⟨list, _, by simp, hnotes, hspells.step hinner⟩
  | implName notes span name =>
    obtain ⟨list, first, rfl, hnotes, rfl⟩ := h
    exact ⟨_, by simp, rfl, ImplDef.spells_start hnotes _ first place⟩
  | openBases impl =>
    obtain ⟨block, rfl, hbases, himpl⟩ := h
    exact ⟨block, _, rfl, himpl.ready hbases place⟩
  | openBlock impl =>
    obtain ⟨block, rfl, -, himpl⟩ := h
    have hbody : impl.Spells blockBody block := { himpl with goes := himpl.goes.skip }
    exact ⟨_, [], by simp, hbody.mark place, noted_nil_rpc⟩
  | closeBases impl =>
    obtain ⟨block, list, rfl, himpl⟩ := h
    exact ⟨_, by simp, himpl.last.close place⟩
  | openBase hinner =>
    obtain ⟨block, list, rfl, himpl⟩ := h
    exact ⟨block, list, _, rfl, himpl, hopen.step hinner⟩
  | base hinner =>
    obtain ⟨block, list, rest, rfl, himpl, hspells⟩ := h
    exact ⟨block, list, _, by simp, himpl, hspells.step hinner⟩
  | openMethods impl =>
    obtain ⟨block, rfl, himpl⟩ := h
    exact ⟨_, [], by simp, himpl.mark place, noted_nil_rpc⟩
  | methodAnnotating hinner =>
    obtain ⟨block, list, rest, rfl, himpl, hnotes, hspells⟩ := h
    exact ⟨block, list, _, by simp, himpl, hnotes, hspells.step hinner⟩
  | methodName impl notes name =>
    obtain ⟨block, list, first, rfl, himpl, hnotes⟩ := h
    exact ⟨block, _, by simp, himpl, MethodHead.spells_start hnotes _ first place⟩
  | openParams impl head =>
    obtain ⟨block, list, rfl, himpl, hhead⟩ := h
    exact ⟨block, _, by simp, himpl, hhead.ready place⟩
  | openParam impl head name =>
    obtain ⟨block, list, rfl, himpl, hhead⟩ := h
    exact ⟨block, list, place, rfl, rfl, himpl, hhead⟩
  | closeParams impl head =>
    obtain ⟨block, list, rfl, himpl, hhead⟩ := h
    exact ⟨block, _, by simp, himpl, hhead.last.mark place⟩
  | openType impl head name span =>
    obtain ⟨block, list, first, rfl, rfl, himpl, hhead⟩ := h
    exact ⟨block, list, first, place, [], by simp, rfl, himpl, hhead, hopen⟩
  | paramType hinner =>
    obtain ⟨block, list, first, colon, rest, rfl, rfl, himpl, hhead, hspells⟩ := h
    exact ⟨block, list, first, colon, _, by simp, rfl, himpl, hhead, hspells.step hinner⟩
  | openResult impl head =>
    obtain ⟨block, list, rfl, himpl, hhead⟩ := h
    exact ⟨block, list, place, [], rfl, himpl, hhead, hopen⟩
  | result hinner =>
    obtain ⟨block, list, arrow, rest, rfl, himpl, hhead, hspells⟩ := h
    exact ⟨block, list, arrow, _, by simp, himpl, hhead, hspells.step hinner⟩

/-- What has been read of an open item is complete when the item pauses. -/
theorem Focus.Spells.pauses {focus : Focus} {tokens : List Placed} {imports : List Import}
    {pause : Pause} (h : focus.Spells tokens) (hpause : focus.Pauses imports pause) :
    ∃ items more, tokens = yields items ++ more ∧ List.Forall₂ Import.Spells imports items ∧
      pause.Spells more := by
  cases hpause with
  | items notes => exact ⟨[], tokens, rfl, .nil, h⟩
  | importing hdone =>
    obtain ⟨tree, rfl, hitem⟩ := ImportReading.Spells.done? h hdone
    exact ⟨[tree], [], by simp, .cons hitem .nil, [], rfl, noted_nil⟩
  | annotating hdone =>
    obtain ⟨list, rest, rfl, hnotes, hinner⟩ := h
    obtain ⟨children, rfl, hnote⟩ := hinner.done? hdone
    exact ⟨[], _, rfl, .nil, _, by simp, hnotes.add hnote⟩
  | base hdone =>
    obtain ⟨block, list, rest, rfl, himpl, hinner⟩ := h
    obtain ⟨children, rfl, htype⟩ := hinner.done? hdone
    exact ⟨[], _, rfl, .nil, block, _, by simp, himpl.add htype⟩
  | methods impl notes => exact ⟨[], tokens, rfl, .nil, h⟩
  | methodAnnotating hdone =>
    obtain ⟨block, list, rest, rfl, himpl, hnotes, hinner⟩ := h
    obtain ⟨children, rfl, hnote⟩ := hinner.done? hdone
    exact ⟨[], _, rfl, .nil, block, _, by simp, himpl, hnotes.add hnote⟩
  | param impl head name span =>
    obtain ⟨block, list, first, rfl, rfl, himpl, hhead⟩ := h
    exact ⟨[], _, rfl, .nil, block, _, by simp, himpl, hhead.addName name first⟩
  | paramType hdone =>
    obtain ⟨block, list, first, colon, rest, rfl, rfl, himpl, hhead, hinner⟩ := h
    obtain ⟨children, rfl, htype⟩ := hinner.done? hdone
    exact ⟨[], _, rfl, .nil, block, _, by simp, himpl, hhead.addTyped _ first colon htype⟩
  | paramsDone impl head =>
    obtain ⟨block, list, rfl, himpl, hhead⟩ := h
    exact ⟨[], _, rfl, .nil, block, list, rfl, himpl, hhead.ended⟩
  | result hdone =>
    obtain ⟨block, list, arrow, rest, rfl, himpl, hhead, hinner⟩ := h
    obtain ⟨children, rfl, htype⟩ := hinner.done? hdone
    exact ⟨[], _, rfl, .nil, block, _, by simp, himpl, hhead.endedWith htype arrow⟩

namespace Reading

variable {reading next : Reading} {trees list : List ParseTree}

/-! ## Complete items -/

theorem complete_start : start.Complete [] := ⟨Goes.start (by simp [Rule.alternatives]), rfl⟩

/-- A complete import joins the items. -/
theorem Complete.addImport (h : reading.Complete trees) {item : Import} {tree : ParseTree}
    (hitem : item.Spells tree) :
    Complete { reading with imports := reading.imports ++ [item] } (trees ++ [tree]) := by
  obtain ⟨rule, hrule, children, rfl, hderives, himports⟩ := hitem
  have hitems : rule ∈ [Rule.plainImport, .fromImport, .implBlock] := by
    simp only [List.mem_cons, List.not_mem_nil, or_false] at hrule ⊢
    exact hrule.imp_right .inl
  have himpls : implsOf [.node rule children] = [] := by
    rcases List.mem_pair.mp hrule with rfl | rfl
    · rfl
    · rfl
  refine ⟨h.goes.again.node hitems hderives, ?_⟩
  have himage := Definition.mk.inj h.image
  rw [definitionOf, importsOf_append, implsOf_append, himage.1, himage.2, himpls, importsOf,
    List.flatMap_singleton, himports, List.append_nil]

/-- Complete imports join the items. -/
theorem Complete.addImports (h : reading.Complete trees) {imports : List Import}
    {items : List ParseTree} (hitems : List.Forall₂ Import.Spells imports items) :
    (reading.addImports imports).Complete (trees ++ items) := by
  induction hitems generalizing reading trees with
  | nil => simpa using h
  | cons hitem _ ih => simpa [Reading.addImports] using ih (h.addImport hitem)

/-- A complete block joins the items. -/
theorem Complete.addImpl (h : reading.Complete trees) {children : List ParseTree}
    (hderives : Rule.implBlock.Derives children) :
    Complete ⟨reading.imports, reading.impls ++ [implOf children], .items []⟩
      (trees ++ [.node .implBlock children]) := by
  refine ⟨h.goes.again.node (by simp) hderives, ?_⟩
  have himage := Definition.mk.inj h.image
  rw [definitionOf, importsOf_append, implsOf_append, himage.1, himage.2]
  simp [importsOf, ParseTree.imports, implsOf, ParseTree.impls]

/-- Opening another item leaves the complete ones. -/
theorem Complete.go (h : reading.Complete trees) {focus : Focus} {more tokens : List Placed}
    (hfocus : focus.Spells more) (htokens : tokens = yields trees ++ more) :
    (reading.go focus).Spells tokens := ⟨trees, more, htokens, ⟨h.goes, h.image⟩, hfocus⟩

/-! ## Steps -/

/-- A token that begins an item goes on with the trees that have been read. -/
private theorem Complete.stepItems {notes : List Annotation} (h : reading.Complete trees)
    (hnotes : Noted .implBlock blockHead notes list)
    (hstep : reading.stepItems notes token place = some next) :
    next.Spells (yields trees ++ (yields list ++ [⟨token, place⟩])) := by
  unfold Reading.stepItems at hstep
  split at hstep
  · obtain rfl := Option.some.inj hstep
    obtain rfl := hnotes.eq_nil
    exact h.go ⟨place, rfl⟩ rfl
  · obtain rfl := Option.some.inj hstep
    obtain rfl := hnotes.eq_nil
    exact h.go ⟨place, rfl⟩ rfl
  · obtain rfl := Option.some.inj hstep
    exact h.go ⟨list, _, rfl, hnotes, place, rfl, rfl⟩ rfl
  · obtain rfl := Option.some.inj hstep
    obtain rfl := hnotes.eq_nil
    exact h.go ⟨[], place, rfl, hnotes, rfl⟩ rfl
  · obtain rfl := Option.some.inj hstep
    exact h.go ⟨list, place, rfl, hnotes, (hnotes.spanOf_append _).symm⟩ rfl
  · simp at hstep

/-- A token that begins a method goes on with the trees that have been read. -/
private theorem Complete.stepMethods {impl : OpenImpl} {notes : List Annotation}
    {block : List ParseTree} (h : reading.Complete trees) (himpl : impl.Spells moreMethods block)
    (hnotes : Noted .rpc rpcHead notes list)
    (hstep : reading.stepMethods impl notes token place = some next) :
    next.Spells (yields trees ++ (yields block ++ yields list ++ [⟨token, place⟩])) := by
  unfold Reading.stepMethods at hstep
  split at hstep
  · obtain rfl := Option.some.inj hstep
    exact h.go ⟨block, list, _, rfl, himpl, hnotes, place, rfl, rfl⟩ rfl
  · obtain rfl := Option.some.inj hstep
    exact h.go ⟨block, list, place, rfl, himpl, hnotes⟩ rfl
  · obtain rfl := Option.some.inj hstep
    obtain rfl := hnotes.eq_nil
    obtain ⟨hderives, himage⟩ := himpl.close place
    have hcomplete := h.addImpl hderives
    rw [himage] at hcomplete
    exact ⟨_, [], by simp, hcomplete, [], rfl, noted_nil⟩
  · simp at hstep

/-- A token after a base goes on with the trees that have been read. -/
private theorem Complete.stepBases {impl : OpenImpl} {block : List ParseTree} (place : Place)
    (h : reading.Complete trees)
    (himpl : impl.Listed (afterItem (.node [.typeExpr]) []) block list)
    (hstep : reading.stepBases impl token = some next) :
    next.Spells (yields trees ++ (yields block ++ yields list ++ [⟨token, place⟩])) := by
  unfold Reading.stepBases at hstep
  split at hstep
  · obtain rfl := Option.some.inj hstep
    exact h.go ⟨block, _, by simp, himpl.comma place⟩ rfl
  · obtain rfl := Option.some.inj hstep
    exact h.go ⟨_, by simp, himpl.last.close place⟩ rfl
  · simp at hstep

/-- A token after a parameter goes on with the trees that have been read. -/
private theorem Complete.stepParams {impl : OpenImpl} {head : MethodHead} {block : List ParseTree}
    (place : Place) (h : reading.Complete trees) (himpl : impl.Spells moreMethods block)
    (hhead : head.Spells (afterItem (.node [.param]) rpcEnd) list)
    (hstep : reading.stepParams impl head token = some next) :
    next.Spells (yields trees ++ (yields block ++ yields list ++ [⟨token, place⟩])) := by
  unfold Reading.stepParams at hstep
  split at hstep
  · obtain rfl := Option.some.inj hstep
    exact h.go ⟨block, _, by simp, himpl, hhead.comma place⟩ rfl
  · obtain rfl := Option.some.inj hstep
    exact h.go ⟨block, _, by simp, himpl, hhead.last.mark place⟩ rfl
  · simp at hstep

/-- A body goes on with the trees that have been read. -/
private theorem Complete.stepBody {impl : OpenImpl} {head : MethodHead} {block : List ParseTree}
    {result : Option TypeExpr} (h : reading.Complete trees) (himpl : impl.Spells moreMethods block)
    (hhead : head.Ended result list)
    (hstep : reading.stepBody impl head result token place = some next) :
    next.Spells (yields trees ++ (yields block ++ yields list ++ [⟨token, place⟩])) := by
  unfold Reading.stepBody at hstep
  split at hstep
  · rename_i text
    obtain rfl := Option.some.inj hstep
    obtain ⟨hderives, hmethod⟩ := hhead.method text place
    exact h.go ⟨_, [], by simp, himpl.addMethod hderives hmethod, noted_nil_rpc⟩ rfl
  · simp at hstep

/-- The token after a pause goes on with the trees that have been read. -/
theorem Complete.step_pause {pause : Pause} {tokens : List Placed} (h : reading.Complete trees)
    (hpause : pause.Spells tokens) (hstep : pause.step reading token place = some next) :
    next.Spells (yields trees ++ (tokens ++ [⟨token, place⟩])) := by
  cases pause with
  | items notes =>
    obtain ⟨list, rfl, hnotes⟩ := hpause
    exact h.stepItems hnotes hstep
  | bases impl =>
    obtain ⟨block, list, rfl, himpl⟩ := hpause
    exact h.stepBases place himpl hstep
  | methods impl notes =>
    obtain ⟨block, list, rfl, himpl, hnotes⟩ := hpause
    exact h.stepMethods himpl hnotes hstep
  | params impl head =>
    obtain ⟨block, list, rfl, himpl, hhead⟩ := hpause
    exact h.stepParams place himpl hhead hstep
  | body impl head result =>
    obtain ⟨block, list, rfl, himpl, hhead⟩ := hpause
    exact h.stepBody himpl hhead hstep

/-- Every token that is taken goes on with the trees that have been read. -/
theorem Spells.step {tokens : List Placed} (h : reading.Spells tokens)
    (hstep : reading.step token place = some next) : next.Spells (tokens ++ [⟨token, place⟩]) := by
  obtain ⟨trees, more, rfl, hcomplete, hfocus⟩ := h
  rw [List.append_assoc]
  rcases step_cases hstep with ⟨focus, hadvance, rfl⟩ | ⟨imports, pause, hpause, hstep⟩
  · exact hcomplete.go (hfocus.advances hadvance) rfl
  · obtain ⟨items, rest, rfl, himports, hspells⟩ := hfocus.pauses hpause
    simpa using (hcomplete.addImports himports).step_pause hspells hstep

/-- A run goes on with the trees that have been read. -/
theorem Spells.run {tokens more : List Placed} {last after : Place} (h : reading.Spells tokens)
    (hrun : reading.run last more = .ok (next, after)) : next.Spells (tokens ++ more) := by
  induction more generalizing reading tokens last with
  | nil =>
    obtain ⟨rfl, rfl⟩ := Prod.mk.inj (Except.ok.inj hrun)
    rwa [List.append_nil]
  | cons placed more ih =>
    obtain ⟨token, place⟩ := placed
    simp only [Reading.run] at hrun
    split at hrun
    · cases hrun
    · rename_i hstep
      have hmore := ih (h.step hstep) hrun
      rwa [List.append_assoc] at hmore

/-- A definition that has been read is what the tree of its tokens stands for. -/
theorem Spells.done? {tokens : List Placed} {definition : Definition Fenced}
    (h : reading.Spells tokens) (hdone : reading.done? = some definition) :
    ∃ trees, tokens = yields trees ∧ Rule.start.Derives trees ∧
      definitionOf trees = definition := by
  obtain ⟨imports, impls, focus⟩ := reading
  obtain ⟨trees, more, rfl, hcomplete, hfocus⟩ := h
  simp only [Reading.done?] at hdone
  split at hdone
  · obtain rfl := Option.some.inj hdone
    obtain ⟨list, rfl, hnotes⟩ := hfocus
    obtain rfl := hnotes.eq_nil
    exact ⟨trees, by simp, hcomplete.goes.stop.derives, hcomplete.image⟩
  · obtain ⟨item, hitem, rfl⟩ := Option.map_eq_some_iff.mp hdone
    obtain ⟨tree, rfl, hspells⟩ := ImportReading.Spells.done? hfocus hitem
    have hadded := hcomplete.addImport hspells
    exact ⟨trees ++ [tree], by simp, hadded.goes.stop.derives, hadded.image⟩
  · simp at hdone

end Reading

/-- Before the first token, nothing has been read. -/
theorem Reading.spells_start : Reading.start.Spells [] :=
  ⟨[], [], rfl, complete_start, [], rfl, noted_nil⟩

/-- A definition that tokens spell is what a derivation of them stands for. -/
theorem exists_derivation_of_ofScan {scan : Scan} {definition : Definition Fenced}
    (h : Definition.ofScan scan = .ok definition) : scan.stuck = none ∧
      ∃ trees, Rule.start.Derives trees ∧ yields trees = scan.tokens ∧
        definitionOf trees = definition := by
  obtain ⟨hstuck, reading, last, hrun, hdone⟩ := Definition.ofScan_eq_ok_iff.mp h
  obtain ⟨trees, htokens, hderives, himage⟩ := (Reading.spells_start.run hrun).done? hdone
  rw [List.nil_append] at htokens
  exact ⟨hstuck, trees, hderives, htokens.symm, himage⟩

end Interpose
