import Interpose.Proofs.Service.Collection
import Interpose.Service.Session
import Mathlib.Data.List.InsertIdx

/-!
# Runs of registry sessions

Edits and registries set by hand put the methods and the registry of a session out of step.
Resolving brings them back in step where the registry has every path, and building does in every
state, since it looks at nothing but the methods and the paths that they list. A step that fails
leaves no trace, so the failing steps of a run could as well be left out of it.
-/

namespace Interpose

/-- The method without indices. -/
def Rpc.bare (rpc : Rpc) : Rpc := { rpc with indices := [] }

namespace Registry

/-! ## Indices play no part -/

theorem collect_bare (methods : List Rpc) : collect (methods.map Rpc.bare) = collect methods := by
  rw [collect, List.flatMap_map]
  rfl

theorem resolve_bare (methods : List Rpc) (registry : Registry) :
    resolve (methods.map Rpc.bare) registry = resolve methods registry := by
  induction methods with
  | nil => rfl
  | cons rpc methods ih =>
    have hfirst : resolveRpc registry rpc.bare = resolveRpc registry rpc := rfl
    rw [resolve] at ih ⊢
    rw [List.map_cons, List.mapM_cons, ih, hfirst, resolve, resolve, List.mapM_cons]

/-- Building replaces whatever indices the methods carry. -/
theorem build_bare (methods : List Rpc) : build (methods.map Rpc.bare) = build methods := by
  rw [build, collect_bare, resolve_bare, build]

/-- Resolving changes the indices of methods only. -/
theorem map_bare_of_resolve {methods resolved : List Rpc} {registry : Registry}
    (h : resolve methods registry = .ok resolved) :
    resolved.map Rpc.bare = methods.map Rpc.bare := by
  apply map_eq_of_mapM _ h
  intro rpc resolved hrpc
  obtain ⟨⟨indices, rfl⟩, _⟩ := resolveRpc_eq_ok hrpc
  rfl

/-- Methods can be resolved exactly when the registry has every path that they list. -/
theorem exists_resolve_iff {methods : List Rpc} {registry : Registry} :
    (∃ resolved, resolve methods registry = .ok resolved) ↔
      ∀ rpc ∈ methods, ∀ path ∈ rpc.paths, path ∈ registry.map (·.path) := by
  constructor
  · rintro ⟨resolved, hresolve⟩ rpc hrpc path hpath
    obtain ⟨found, _, hfound⟩ := exists_mem_of_forall₂ (mapM_eq_ok_iff.mp hresolve) hrpc
    obtain ⟨⟨indices, rfl⟩, hstep⟩ := resolveRpc_eq_ok hfound
    obtain ⟨position, hposition⟩ := List.getElem?_of_mem hpath
    obtain ⟨index, _, hindex⟩ := hstep.exists_index hposition
    exact List.mem_of_getElem? hindex
  · intro hpaths
    exact exists_mapM_eq_ok fun rpc hrpc => exists_resolveRpc (hpaths rpc hrpc)

namespace Session

/-! ## Steps -/

/-- Every method has an index for each of its middlewares, and each index points at its path. -/
def InStep (session : Session) : Prop := ∀ rpc ∈ session.methods, rpc.InStep session.registry

variable {session after : Session}

/-- Building collects and then resolves. -/
theorem step_build_eq_ok_iff : session.step .build = .ok after ↔
    after.registry = Registry.collect session.methods ∧
      Registry.resolve session.methods after.registry = .ok after.methods := by
  rw [← build_eq_ok_iff]
  cases hbuild : build session.methods with
  | error fault => simp [step, hbuild]
  | ok found =>
    obtain ⟨registry, methods⟩ := found
    obtain ⟨afterMethods, afterRegistry⟩ := after
    simp only [step, hbuild, Except.ok.injEq, mk.injEq, Prod.mk.injEq]
    exact and_comm

theorem step_resolve_eq_ok_iff : session.step .resolve = .ok after ↔
    after.registry = session.registry ∧
      Registry.resolve session.methods session.registry = .ok after.methods := by
  cases hresolve : Registry.resolve session.methods session.registry with
  | error fault => simp [step, hresolve]
  | ok methods =>
    obtain ⟨afterMethods, afterRegistry⟩ := after
    simp only [step, hresolve, Except.ok.injEq, mk.injEq]
    rw [and_comm, eq_comm (a := session.registry)]

/-- Resolved methods are in step with the registry that they were resolved in. -/
theorem inStep_of_resolve {methods : List Rpc} {registry : Registry}
    (h : Registry.resolve methods registry = .ok after.methods)
    (hafter : after.registry = registry) : after.InStep := by
  intro rpc hrpc
  obtain ⟨unresolved, _, hresolved⟩ := exists_of_mem_mapM h hrpc
  rw [hafter]
  exact (resolveRpc_eq_ok hresolved).2

/-- Building succeeds in every state. -/
theorem exists_step_build (session : Session) : ∃ built, session.step .build = .ok built := by
  obtain ⟨resolved, hresolved⟩ := exists_resolve_collect session.methods
  exact ⟨⟨resolved, Registry.collect session.methods⟩, step_build_eq_ok_iff.mpr ⟨rfl, hresolved⟩⟩

/-- Building looks at the methods without their indices, and not at the registry. -/
theorem step_build_congr {other : Session}
    (h : other.methods.map Rpc.bare = session.methods.map Rpc.bare) :
    other.step .build = session.step .build := by
  have hbuild : build other.methods = build session.methods := by
    rw [← build_bare, h, build_bare]
  simp only [step, hbuild]

/-- Only two kinds of steps can fail. -/
theorem step_eq_error {step : Step} {fault : StepFault} (h : session.step step = .error fault) :
    step = .resolve ∨ ∃ index, step = .remove index := by
  cases step with
  | resolve => exact .inl rfl
  | remove index => exact .inr ⟨index, rfl⟩
  | build =>
    obtain ⟨built, hbuilt⟩ := exists_step_build session
    simp [hbuilt] at h
  | add | set | collect => simp [Session.step] at h

/-- What every state of a session allows, whatever its methods carry and its registry holds. -/
structure Recovers (session : Session) : Prop where
  /-- Building succeeds and brings the session in step, as collecting and then resolving does. -/
  built : ∃ built collected, session.step .build = .ok built ∧ built.InStep ∧
    session.step .collect = .ok collected ∧ collected.step .resolve = .ok built
  /-- Every other state with the same methods, whatever their indices, is built to the same one. -/
  determined : ∀ other : Session, other.methods.map Rpc.bare = session.methods.map Rpc.bare →
    other.step .build = session.step .build
  /-- Resolving succeeds when the registry has every path that the methods list. -/
  resolves : (∃ resolved, session.step .resolve = .ok resolved) ↔
    ∀ rpc ∈ session.methods, ∀ path ∈ rpc.paths, path ∈ session.registry.map (·.path)
  /-- It keeps the registry and brings the methods in step with it. -/
  resolved : ∀ resolved, session.step .resolve = .ok resolved →
    resolved.InStep ∧ resolved.registry = session.registry ∧
      resolved.methods.map Rpc.bare = session.methods.map Rpc.bare
  /-- A step that fails resolves or removes a method, and leaves the session as it is. -/
  failed : ∀ step fault, session.step step = .error fault →
    (step = .resolve ∨ ∃ index, step = .remove index) ∧ session.next step = session

theorem recovers (session : Session) : session.Recovers := by
  obtain ⟨built, hbuilt⟩ := exists_step_build session
  obtain ⟨hregistry, hmethods⟩ := step_build_eq_ok_iff.mp hbuilt
  refine ⟨⟨built, ⟨session.methods, Registry.collect session.methods⟩, hbuilt, ?_, rfl, ?_⟩,
    fun other => step_build_congr, ?_, ?_, ?_⟩
  · exact inStep_of_resolve hmethods rfl
  · exact step_resolve_eq_ok_iff.mpr ⟨hregistry, hregistry ▸ hmethods⟩
  · rw [← exists_resolve_iff]
    constructor
    · rintro ⟨resolved, hresolved⟩
      exact ⟨_, (step_resolve_eq_ok_iff.mp hresolved).2⟩
    · rintro ⟨methods, hmethods⟩
      exact ⟨⟨methods, session.registry⟩, step_resolve_eq_ok_iff.mpr ⟨rfl, hmethods⟩⟩
  · intro resolved hresolved
    obtain ⟨hkept, hmethods⟩ := step_resolve_eq_ok_iff.mp hresolved
    exact ⟨inStep_of_resolve hmethods hkept, hkept, map_bare_of_resolve hmethods⟩
  · intro step fault hfault
    refine ⟨step_eq_error hfault, ?_⟩
    rw [next, hfault]

/-! ## Runs -/

/-- The state after several steps, of which those that fail change nothing. -/
def run (session : Session) (steps : List Step) : Session := steps.foldl next session

/-- The steps of a run that do not fail. -/
def succeeding (session : Session) : List Step → List Step
  | [] => []
  | step :: steps =>
    match session.step step with
    | .ok after => step :: after.succeeding steps
    | .error _ => session.succeeding steps

/-- The steps that do not fail lead to the end of the run by themselves, and none of them fails. -/
theorem foldlM_succeeding (session : Session) (steps : List Step) :
    (session.succeeding steps).foldlM Session.step session = .ok (session.run steps) := by
  induction steps generalizing session with
  | nil => rfl
  | cons step steps ih =>
    have hrun : session.run (step :: steps) = (session.next step).run steps := rfl
    rw [hrun, next, succeeding]
    cases hstep : session.step step with
    | error fault => exact ih session
    | ok after =>
      rw [List.foldlM_cons, hstep]
      exact ih after

end Session

/-- Whether a step adds or removes a method. -/
def Step.edits : Step → Bool
  | .add _ | .remove _ => true
  | .set _ | .collect | .resolve | .build => false

namespace Session

variable {session other : Session}

/-- Other steps change the indices of methods at most. -/
theorem map_bare_next {step : Step} (h : step.edits = false) :
    (session.next step).methods.map Rpc.bare = session.methods.map Rpc.bare := by
  cases hstep : session.step step with
  | error fault => rw [next, hstep]
  | ok after =>
    have hnext : session.next step = after := by rw [next, hstep]
    rw [hnext]
    cases step with
    | add | remove => cases h
    | set | collect =>
      obtain rfl := Except.ok.inj hstep
      rfl
    | resolve => exact map_bare_of_resolve (step_resolve_eq_ok_iff.mp hstep).2
    | build => exact map_bare_of_resolve (step_build_eq_ok_iff.mp hstep).2

/-- Edits make no difference between methods that differ in their indices only. -/
theorem map_bare_next_congr {step : Step} (hedits : step.edits = true)
    (h : session.methods.map Rpc.bare = other.methods.map Rpc.bare) :
    (session.next step).methods.map Rpc.bare = (other.next step).methods.map Rpc.bare := by
  cases step with
  | add rpc =>
    have hadd : ∀ session : Session, (session.next (.add rpc)).methods.map Rpc.bare =
        session.methods.map Rpc.bare ++ [rpc.bare] := fun session => List.map_append
    rw [hadd, hadd, h]
  | remove index =>
    have hlength : session.methods.length = other.methods.length := by
      simpa using congrArg List.length h
    cases hposition : position? other.methods.length index with
    | none => simpa only [next, step, hlength, hposition] using h
    | some position =>
      simp only [next, step, hlength, hposition]
      rw [← List.eraseIdx_map, h, List.eraseIdx_map]
  | set | collect | resolve | build => cases hedits

/-- The edits of a run determine its methods but for their indices. -/
theorem map_bare_run (steps : List Step)
    (h : session.methods.map Rpc.bare = other.methods.map Rpc.bare) :
    (session.run steps).methods.map Rpc.bare =
      (other.run (steps.filter Step.edits)).methods.map Rpc.bare := by
  induction steps generalizing session other with
  | nil => exact h
  | cons step steps ih =>
    cases hedits : step.edits with
    | true =>
      rw [List.filter_cons_of_pos hedits]
      exact ih (map_bare_next_congr hedits h)
    | false =>
      rw [List.filter_cons_of_neg (by simp [hedits])]
      exact ih ((map_bare_next hedits).trans h)

/-- After any steps a session can be built, which brings it in step and depends on its methods
alone, so on the edits among the steps. The steps that failed could as well not have been tried. -/
theorem recovers_run (session : Session) (steps : List Step) :
    (session.run steps).Recovers ∧
    (session.run steps).step .build = (session.run (steps.filter Step.edits)).step .build ∧
    (session.succeeding steps).foldlM Session.step session = .ok (session.run steps) :=
  ⟨recovers _, step_build_congr (map_bare_run steps rfl), foldlM_succeeding session steps⟩

end Session

end Registry

end Interpose
