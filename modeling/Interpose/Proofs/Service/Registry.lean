import Interpose.Proofs.Except
import Interpose.Service.Registry

/-!
# Resolved methods

A method is in step with a registry when each of its indices points at an entry with the path of the
middleware at the same position. Resolving a method brings it in step and changes nothing else of
it.
-/

namespace Interpose

/-- The indices of a method point, one by one, at the paths of its middlewares. -/
def Rpc.InStep (registry : Registry) (rpc : Rpc) : Prop :=
  List.Forall₂ (fun (index : Int) (ref : MiddlewareRef) =>
    ∃ position : Nat, index = position ∧ (registry.map (·.path))[position]? = some ref.path)
    rpc.indices rpc.middlewares

namespace Registry

/-- A path that has an index stands at it. -/
theorem getElem?_of_index? {path : String} {registry : Registry} {position : Nat}
    (h : index? path registry = some position) :
    (registry.map (·.path))[position]? = some path := by
  induction registry generalizing position with
  | nil => simp [index?] at h
  | cons ref refs ih =>
    rw [index?] at h
    cases hi : index? path refs with
    | some index =>
      obtain rfl : index + 1 = position := by simpa [hi] using h
      simpa using ih hi
    | none =>
      rw [hi] at h
      obtain ⟨hp, rfl⟩ : ref.path = path ∧ 0 = position := by simpa using h
      simp [hp]

/-- A middleware that is found stands at its index. -/
theorem getElem?_of_find {registry : Registry} {ref : MiddlewareRef} {index : Int}
    (h : find registry ref = .ok index) :
    ∃ position : Nat, index = position ∧ (registry.map (·.path))[position]? = some ref.path := by
  rw [find] at h
  cases hi : index? ref.path registry with
  | none => simp [hi] at h
  | some position =>
    rw [hi] at h
    exact ⟨position, (Except.ok.inj h).symm, getElem?_of_index? hi⟩

/-- A resolved method is the same but for its indices, which are in step. -/
theorem resolveRpc_eq_ok {registry : Registry} {rpc resolved : Rpc}
    (h : resolveRpc registry rpc = .ok resolved) :
    (∃ indices, resolved = { rpc with indices }) ∧ resolved.InStep registry := by
  obtain ⟨indices, hi, rfl⟩ := map_eq_ok_iff.mp h
  refine ⟨⟨indices, rfl⟩, ?_⟩
  have hf : List.Forall₂ (fun index ref => find registry ref = .ok index) indices rpc.middlewares :=
    (mapM_eq_ok_iff.mp hi).flip
  exact hf.imp fun _ _ hr => getElem?_of_find hr

/-- The registry that is built is the collected one, and the methods are resolved in it. -/
theorem build_eq_ok_iff {methods resolved : List Rpc} {registry : Registry} :
    build methods = .ok (registry, resolved) ↔
      registry = collect methods ∧ resolve methods registry = .ok resolved := by
  rw [build, map_eq_ok_iff]
  constructor
  · rintro ⟨found, hfound, hpair⟩
    obtain ⟨rfl, rfl⟩ := Prod.mk.inj hpair
    exact ⟨rfl, hfound⟩
  · rintro ⟨rfl, hfound⟩
    exact ⟨resolved, hfound, rfl⟩

/-- Building a registry keeps the methods but for their indices, which are in step with it. -/
theorem build_eq_ok {methods resolved : List Rpc} {registry : Registry}
    (h : build methods = .ok (registry, resolved)) :
    List.Forall₂ (fun rpc rpc' => (∃ indices, rpc' = { rpc with indices }) ∧ rpc'.InStep registry)
      methods resolved := by
  obtain ⟨_, hresolved⟩ := build_eq_ok_iff.mp h
  exact (mapM_eq_ok_iff.mp hresolved).imp fun _ _ hr => resolveRpc_eq_ok hr

end Registry

end Interpose
