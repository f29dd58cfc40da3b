import Interpose.Proofs.Service.Registry
import Mathlib.Data.List.Nodup
import Mathlib.Data.List.Sort
import Mathlib.Data.String.Basic

/-!
# Collected registries

The registry of some methods holds the paths that they use, each once and in the order of code
points. So every middleware of these methods is found in it, building it never fails, and a path
has one index wherever it is used.
-/

namespace Interpose

/-- The paths of a method's middlewares, in their order. -/
def Rpc.paths (rpc : Rpc) : List String := rpc.middlewares.map (·.path)

namespace Registry

/-! ## Distinct references -/

theorem same_eq_true_iff {a b : MiddlewareRef} : a.same b = true ↔ a.path = b.path := by
  simp [MiddlewareRef.same]

/-- Leaving later references out loses no path. -/
theorem mem_paths_distinct {path : String} (refs : List MiddlewareRef) :
    path ∈ (distinct refs).map (·.path) ↔ path ∈ refs.map (·.path) := by
  induction refs with
  | nil => rfl
  | cons ref refs ih =>
    rw [distinct, List.map_cons, List.mem_cons, List.map_cons, List.mem_cons, ← ih]
    constructor
    · rintro (hfirst | hlater)
      · exact .inl hfirst
      · obtain ⟨other, hmem, rfl⟩ := List.mem_map.mp hlater
        exact .inr (List.mem_map_of_mem (List.mem_filter.mp hmem).1)
    · rintro (hfirst | hlater)
      · exact .inl hfirst
      · by_cases hpath : path = ref.path
        · exact .inl hpath
        · obtain ⟨other, hmem, rfl⟩ := List.mem_map.mp hlater
          have hother : ref.same other = false := by
            simpa [MiddlewareRef.same] using Ne.symm hpath
          exact .inr (List.mem_map_of_mem (List.mem_filter.mpr ⟨hmem, by simp [hother]⟩))

/-- Distinct references have distinct paths. -/
theorem nodup_paths_distinct (refs : List MiddlewareRef) :
    ((distinct refs).map (·.path)).Nodup := by
  induction refs with
  | nil => exact List.nodup_nil
  | cons ref refs ih =>
    rw [distinct, List.map_cons, List.nodup_cons]
    refine ⟨fun hmem => ?_, ih.sublist (List.filter_sublist.map _)⟩
    obtain ⟨other, hother, hpath⟩ := List.mem_map.mp hmem
    have hsame : ref.same other = true := same_eq_true_iff.mpr hpath.symm
    simpa [hsame] using (List.mem_filter.mp hother).2

/-! ## The order of paths -/

theorem atMost_eq_true_iff {a b : MiddlewareRef} : a.atMost b = true ↔ a.path ≤ b.path := by
  rw [MiddlewareRef.atMost, MiddlewareRef.before, Bool.not_eq_true', decide_eq_false_iff_not,
    not_lt]

theorem atMost_trans {a b c : MiddlewareRef} (hab : a.atMost b = true) (hbc : b.atMost c = true) :
    a.atMost c = true := by
  rw [atMost_eq_true_iff] at *
  exact hab.trans hbc

theorem atMost_total (a b : MiddlewareRef) : (a.atMost b || b.atMost a) = true := by
  rw [Bool.or_eq_true, atMost_eq_true_iff, atMost_eq_true_iff]
  exact le_total _ _

/-- Sorted references are in the order of their paths. -/
theorem pairwise_sort (refs : List MiddlewareRef) :
    ((sort refs).map (·.path)).Pairwise (· ≤ ·) := by
  have htrans : ∀ a b c : MiddlewareRef, a.atMost b = true → b.atMost c = true →
      a.atMost c = true := fun _ _ _ => atMost_trans
  have hsorted := List.pairwise_mergeSort htrans atMost_total refs
  rw [List.pairwise_map]
  exact hsorted.imp fun h => atMost_eq_true_iff.mp h

theorem paths_sort_perm (refs : List MiddlewareRef) :
    ((sort refs).map (·.path)).Perm (refs.map (·.path)) :=
  (List.mergeSort_perm refs MiddlewareRef.atMost).map _

/-- The paths of a collected registry are distinct. -/
theorem nodup_paths_collect (methods : List Rpc) : ((collect methods).map (·.path)).Nodup :=
  (paths_sort_perm _).nodup_iff.mpr (nodup_paths_distinct _)

/-- The paths of a collected registry ascend strictly. -/
theorem pairwise_lt_collect (methods : List Rpc) :
    ((collect methods).map (·.path)).Pairwise (· < ·) := by
  have hle : ((collect methods).map (·.path)).Pairwise (· ≤ ·) := pairwise_sort _
  have hne := nodup_paths_collect methods
  exact (hle.and hne).imp fun h => lt_of_le_of_ne h.1 h.2

/-- A collected registry holds the paths that the methods use. -/
theorem mem_paths_collect {path : String} {methods : List Rpc} :
    path ∈ (collect methods).map (·.path) ↔ ∃ rpc ∈ methods, path ∈ rpc.paths := by
  have hmem : path ∈ (collect methods).map (·.path) ↔
      path ∈ (methods.flatMap (·.middlewares)).map (·.path) :=
    (paths_sort_perm _).mem_iff.trans (mem_paths_distinct _)
  rw [hmem, List.map_flatMap, List.mem_flatMap]
  rfl

/-! ## Finding what was collected -/

/-- A path of a registry has an index in it. -/
theorem exists_index?_of_mem {path : String} {registry : Registry}
    (h : path ∈ registry.map (·.path)) : ∃ position, index? path registry = some position := by
  induction registry with
  | nil => simp at h
  | cons ref refs ih =>
    rw [index?]
    cases hi : index? path refs with
    | some position => exact ⟨position + 1, rfl⟩
    | none =>
      rcases List.mem_cons.mp h with hfirst | hlater
      · exact ⟨0, if_pos hfirst.symm⟩
      · obtain ⟨position, hsome⟩ := ih hlater
        simp [hsome] at hi

/-- A method whose paths are all in a registry can be resolved in it. -/
theorem exists_resolveRpc {registry : Registry} {rpc : Rpc}
    (h : ∀ path ∈ rpc.paths, path ∈ registry.map (·.path)) :
    ∃ resolved, resolveRpc registry rpc = .ok resolved := by
  have hfound : ∀ ref ∈ rpc.middlewares, ∃ index, find registry ref = .ok index := by
    intro ref hmem
    obtain ⟨position, hindex⟩ := exists_index?_of_mem (h ref.path (List.mem_map_of_mem hmem))
    exact ⟨position, by rw [find, hindex]⟩
  obtain ⟨indices, hindices⟩ := exists_mapM_eq_ok hfound
  exact ⟨_, map_eq_ok_iff.mpr ⟨indices, hindices, rfl⟩⟩

/-- Methods can always be resolved in the registry that is collected from them. -/
theorem exists_resolve_collect (methods : List Rpc) :
    ∃ resolved, resolve methods (collect methods) = .ok resolved :=
  exists_mapM_eq_ok fun rpc hmem =>
    exists_resolveRpc fun _ hpath => mem_paths_collect.mpr ⟨rpc, hmem, hpath⟩

end Registry

/-! ## Methods in step -/

/-- A path that a method uses stands at the index at its position. -/
theorem Rpc.InStep.exists_index {registry : Registry} {rpc : Rpc} (h : rpc.InStep registry)
    {path : String} {position : Nat} (hpath : rpc.paths[position]? = some path) :
    ∃ index : Nat, rpc.indices[position]? = some (index : Int) ∧
      (registry.map (·.path))[index]? = some path := by
  obtain ⟨hlength, hget⟩ := List.forall₂_iff_get.mp h
  rw [Rpc.paths, List.getElem?_map] at hpath
  obtain ⟨ref, href, rfl⟩ := Option.map_eq_some_iff.mp hpath
  obtain ⟨hlt, rfl⟩ := List.getElem?_eq_some_iff.mp href
  have hlt' : position < rpc.indices.length := by omega
  obtain ⟨index, hindex, hentry⟩ := hget position hlt' hlt
  refine ⟨index, ?_, hentry⟩
  rw [List.getElem?_eq_getElem hlt', ← hindex]
  rfl

namespace Registry

/-- What methods become once their registry is built. -/
structure Built (methods : List Rpc) (registry : Registry) (resolved : List Rpc) : Prop where
  /-- The paths of the registry ascend strictly, in the order of code points. -/
  ascending : (registry.map (·.path)).Pairwise (· < ·)
  /-- They are the paths that the methods use. -/
  paths : ∀ path, path ∈ registry.map (·.path) ↔ ∃ rpc ∈ methods, path ∈ rpc.paths
  /-- The methods stay as they are, in their order, but for their indices. -/
  kept : List.Forall₂ (fun rpc rpc' => rpc' = { rpc with indices := rpc'.indices }) methods resolved
  /-- Each method has an index for each of its middlewares, which points at its path. -/
  inStep : ∀ rpc ∈ resolved, rpc.InStep registry
  /-- A path has one index, in whatever methods and at whatever positions it is used. -/
  shared : ∀ rpc ∈ resolved, ∀ other ∈ resolved, ∀ here there : Nat, ∀ path,
    rpc.paths[here]? = some path → other.paths[there]? = some path →
      rpc.indices[here]? = other.indices[there]?

/-- The registry of any methods can be built, and brings them in step with it. -/
theorem exists_built (methods : List Rpc) :
    ∃ registry resolved, build methods = .ok (registry, resolved) ∧
      Built methods registry resolved := by
  obtain ⟨resolved, hresolve⟩ := exists_resolve_collect methods
  have hbuild : build methods = .ok (collect methods, resolved) :=
    build_eq_ok_iff.mpr ⟨rfl, hresolve⟩
  have hstep : ∀ rpc ∈ resolved, rpc.InStep (collect methods) := by
    intro rpc hmem
    obtain ⟨unresolved, _, hrpc⟩ := exists_of_mem_mapM hresolve hmem
    exact (resolveRpc_eq_ok hrpc).2
  refine ⟨collect methods, resolved, hbuild, pairwise_lt_collect methods,
    fun path => mem_paths_collect, (build_eq_ok hbuild).imp ?_, hstep, ?_⟩
  · rintro rpc _ ⟨⟨indices, rfl⟩, _⟩
    rfl
  · intro rpc hrpc other hother here there path hhere hthere
    obtain ⟨index, hindex, hpath⟩ := (hstep rpc hrpc).exists_index hhere
    obtain ⟨index', hindex', hpath'⟩ := (hstep other hother).exists_index hthere
    -- Both indices point at the path, and the registry holds it once.
    obtain ⟨hlt, _⟩ := List.getElem?_eq_some_iff.mp hpath
    have hsame : index = index' :=
      (List.getElem?_inj hlt (nodup_paths_collect methods)).mp (hpath.trans hpath'.symm)
    rw [hindex, hindex', hsame]

end Registry

end Interpose
