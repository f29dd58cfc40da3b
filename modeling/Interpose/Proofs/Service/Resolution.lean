import Interpose.Proofs.Service.Sessions

/-!
# Resolving in any registry

A registry that was not collected may be out of order, repeat paths and hold paths that no method
uses. Resolving in it gives every middleware the last index of its path, and fails at the first
middleware whose path is missing: first among the methods, and then among the middlewares of its
method. Methods that were resolved once stay as they are.
-/

namespace Interpose.Registry

/-- A path stands at a position of a registry and at no later one. -/
structure LastAt (registry : Registry) (path : String) (position : Nat) : Prop where
  /-- The path stands at the position. -/
  here : (registry.map (·.path))[position]? = some path
  /-- It does not stand at a later one. -/
  last : ∀ later, position < later → (registry.map (·.path))[later]? ≠ some path

/-- A path of the rest of a registry stands one position further on in the whole. -/
theorem lastAt_succ_iff {ref : MiddlewareRef} {refs : Registry} {path : String} {position : Nat} :
    LastAt (ref :: refs) path (position + 1) ↔ LastAt refs path position := by
  constructor
  · intro h
    refine ⟨by simpa using h.here, fun later hlater => ?_⟩
    simpa using h.last (later + 1) (by omega)
  · intro h
    refine ⟨by simpa using h.here, fun later hlater => ?_⟩
    obtain ⟨before, rfl⟩ : ∃ before, later = before + 1 := ⟨later - 1, by omega⟩
    simpa using h.last before (by omega)

/-- A path stands last at the front of a registry when the rest does not hold it. -/
theorem lastAt_zero_iff {ref : MiddlewareRef} {refs : Registry} {path : String} :
    LastAt (ref :: refs) path 0 ↔ ref.path = path ∧ path ∉ refs.map (·.path) := by
  constructor
  · intro h
    refine ⟨by simpa using h.here, fun hmem => ?_⟩
    obtain ⟨later, hlater⟩ := List.getElem?_of_mem hmem
    exact h.last (later + 1) (Nat.succ_pos later) hlater
  · rintro ⟨rfl, hnot⟩
    refine ⟨rfl, fun later hlater hpath => hnot ?_⟩
    obtain ⟨before, rfl⟩ : ∃ before, later = before + 1 := ⟨later - 1, by omega⟩
    exact List.mem_of_getElem? hpath

/-- A path has no index exactly when it is missing. -/
theorem index?_eq_none_iff {path : String} {registry : Registry} :
    index? path registry = none ↔ path ∉ registry.map (·.path) := by
  constructor
  · intro hnone hmem
    obtain ⟨position, hposition⟩ := exists_index?_of_mem hmem
    rw [hnone] at hposition
    cases hposition
  · intro hnot
    cases hindex : index? path registry with
    | none => rfl
    | some position => exact absurd (List.mem_of_getElem? (getElem?_of_index? hindex)) hnot

/-- The index of a path is its last position. -/
theorem index?_eq_some_iff {path : String} {registry : Registry} {position : Nat} :
    index? path registry = some position ↔ LastAt registry path position := by
  induction registry generalizing position with
  | nil =>
    constructor
    · intro h
      cases h
    · intro h
      simpa using h.here
  | cons ref refs ih =>
    rw [index?]
    cases hrest : index? path refs with
    | none =>
      have hnot := index?_eq_none_iff.mp hrest
      cases position with
      | zero => simp [lastAt_zero_iff, hnot]
      | succ position => simp [lastAt_succ_iff, ← ih, hrest]
    | some index =>
      have hmem := List.mem_of_getElem? (getElem?_of_index? hrest)
      cases position with
      | zero => simp [lastAt_zero_iff, hmem]
      | succ position => simp [lastAt_succ_iff, ← ih, hrest]

/-! ## Single middlewares and methods -/

/-- The path of a middleware is missing from a registry. -/
def Lacks (registry : Registry) (ref : MiddlewareRef) : Prop := ref.path ∉ registry.map (·.path)

/-- A middleware is found at the last position of its path. -/
theorem find_eq_ok_iff {registry : Registry} {ref : MiddlewareRef} {index : Int} :
    find registry ref = .ok index ↔
      ∃ position : Nat, index = position ∧ registry.LastAt ref.path position := by
  rw [find]
  cases hindex : index? ref.path registry with
  | none =>
    constructor
    · intro h
      cases h
    · rintro ⟨position, rfl, hlast⟩
      rw [index?_eq_some_iff.mpr hlast] at hindex
      cases hindex
  | some found =>
    constructor
    · intro h
      exact ⟨found, (Except.ok.inj h).symm, index?_eq_some_iff.mp hindex⟩
    · rintro ⟨position, rfl, hlast⟩
      rw [index?_eq_some_iff.mpr hlast] at hindex
      obtain rfl := Option.some.inj hindex
      rfl

/-- A middleware is not found when its path is missing. -/
theorem find_eq_error_iff {registry : Registry} {ref : MiddlewareRef} {fault : Fault} :
    find registry ref = .error fault ↔
      registry.Lacks ref ∧ fault = .unregistered ref.span ref.path := by
  rw [find, Lacks, ← index?_eq_none_iff]
  cases index? ref.path registry with
  | none => simp [eq_comm]
  | some position => simp

/-- What finding needs is that the path is there. -/
theorem exists_find_iff {registry : Registry} {ref : MiddlewareRef} :
    (∃ index, find registry ref = .ok index) ↔ ¬ registry.Lacks ref := by
  cases hfind : find registry ref with
  | error fault => simp [(find_eq_error_iff.mp hfind).1]
  | ok index =>
    have hnot : ¬ registry.Lacks ref := by
      intro hlacks
      rw [find_eq_error_iff.mpr ⟨hlacks, rfl⟩] at hfind
      cases hfind
    simp [hnot]

/-- A member of a list that has a property, which none of the members before it has. -/
def FirstWith {α : Type} (p : α → Prop) (xs : List α) (x : α) : Prop :=
  ∃ before after, xs = before ++ x :: after ∧ (∀ other ∈ before, ¬ p other) ∧ p x

/-- Computations fail as the first of them that does. -/
theorem mapM_eq_error_iff_first {α β ε : Type} {f : α → Except ε β} {p : α → Prop}
    (hf : ∀ x, (∃ y, f x = .ok y) ↔ ¬ p x) {xs : List α} {e : ε} :
    xs.mapM f = .error e ↔ ∃ x, FirstWith p xs x ∧ f x = .error e := by
  rw [mapM_eq_error_iff]
  constructor
  · rintro ⟨before, x, after, rfl, hbefore, hfail⟩
    have hx : p x := by
      by_contra hnot
      obtain ⟨y, hy⟩ := (hf x).mpr hnot
      rw [hfail] at hy
      cases hy
    exact ⟨x, ⟨before, after, rfl, fun other hmem => (hf other).mp (hbefore other hmem), hx⟩, hfail⟩
  · rintro ⟨x, ⟨before, after, rfl, hbefore, -⟩, hfail⟩
    exact ⟨before, x, after, rfl, fun other hmem => (hf other).mpr (hbefore other hmem), hfail⟩

/-- A method some of whose middlewares are missing from a registry. -/
def LacksSome (registry : Registry) (rpc : Rpc) : Prop :=
  ∃ ref ∈ rpc.middlewares, registry.Lacks ref

theorem exists_resolveRpc_iff {registry : Registry} {rpc : Rpc} :
    (∃ resolved, resolveRpc registry rpc = .ok resolved) ↔ ¬ registry.LacksSome rpc := by
  constructor
  · rintro ⟨resolved, hresolved⟩ ⟨ref, hmem, hlacks⟩
    obtain ⟨indices, hindices, -⟩ := map_eq_ok_iff.mp hresolved
    obtain ⟨index, -, hindex⟩ := exists_mem_of_forall₂ (mapM_eq_ok_iff.mp hindices) hmem
    exact exists_find_iff.mp ⟨index, hindex⟩ hlacks
  · intro hnot
    apply exists_resolveRpc
    intro path hpath
    obtain ⟨ref, hmem, rfl⟩ := List.mem_map.mp hpath
    by_contra hlacks
    exact hnot ⟨ref, hmem, hlacks⟩

/-- A method is refused for the first of its middlewares that is missing. -/
theorem resolveRpc_eq_error_iff {registry : Registry} {rpc : Rpc} {fault : Fault} :
    resolveRpc registry rpc = .error fault ↔
      ∃ ref, FirstWith registry.Lacks rpc.middlewares ref ∧
        fault = .unregistered ref.span ref.path := by
  rw [resolveRpc, map_eq_error_iff, mapM_eq_error_iff_first fun _ => exists_find_iff]
  constructor
  · rintro ⟨ref, hfirst, hfault⟩
    exact ⟨ref, hfirst, (find_eq_error_iff.mp hfault).2⟩
  · rintro ⟨ref, hfirst, hfault⟩
    obtain ⟨before, after, -, -, hlacks⟩ := id hfirst
    exact ⟨ref, hfirst, find_eq_error_iff.mpr ⟨hlacks, hfault⟩⟩

/-- A method is resolved with the last index of each of its paths. -/
theorem resolveRpc_eq_ok_iff {registry : Registry} {rpc resolved : Rpc} :
    resolveRpc registry rpc = .ok resolved ↔ resolved = { rpc with indices := resolved.indices } ∧
      List.Forall₂ (fun (index : Int) ref =>
        ∃ position : Nat, index = position ∧ registry.LastAt ref.path position)
        resolved.indices rpc.middlewares := by
  rw [resolveRpc, map_eq_ok_iff]
  constructor
  · rintro ⟨indices, hindices, rfl⟩
    refine ⟨rfl, ?_⟩
    have hfound := (mapM_eq_ok_iff.mp hindices).flip
    exact hfound.imp fun _ _ h => find_eq_ok_iff.mp h
  · rintro ⟨hkept, hlast⟩
    refine ⟨resolved.indices, ?_, hkept.symm⟩
    apply mapM_eq_ok_iff.mpr
    have hfound := hlast.flip
    exact hfound.imp fun _ _ h => find_eq_ok_iff.mpr h

/-! ## Lists of methods -/

/-- The first middleware of some methods that is missing from a registry, in the order of the
methods and then in the order of the middlewares of its method. -/
def FirstMissing (methods : List Rpc) (registry : Registry) (ref : MiddlewareRef) : Prop :=
  ∃ rpc, FirstWith registry.LacksSome methods rpc ∧ FirstWith registry.Lacks rpc.middlewares ref

/-- Methods are refused for the first of their middlewares that is missing. -/
theorem resolve_eq_error_iff {methods : List Rpc} {registry : Registry} {fault : Fault} :
    resolve methods registry = .error fault ↔
      ∃ ref, FirstMissing methods registry ref ∧ fault = .unregistered ref.span ref.path := by
  rw [resolve, mapM_eq_error_iff_first fun _ => exists_resolveRpc_iff]
  constructor
  · rintro ⟨rpc, hrpc, hfault⟩
    obtain ⟨ref, href, rfl⟩ := resolveRpc_eq_error_iff.mp hfault
    exact ⟨ref, ⟨rpc, hrpc, href⟩, rfl⟩
  · rintro ⟨ref, ⟨rpc, hrpc, href⟩, rfl⟩
    exact ⟨rpc, hrpc, resolveRpc_eq_error_iff.mpr ⟨ref, href, rfl⟩⟩

/-- A method that was resolved is resolved to itself. -/
theorem resolveRpc_resolved {registry : Registry} {rpc resolved : Rpc}
    (h : resolveRpc registry rpc = .ok resolved) : resolveRpc registry resolved = .ok resolved := by
  obtain ⟨hkept, hlast⟩ := resolveRpc_eq_ok_iff.mp h
  have hmiddlewares : resolved.middlewares = rpc.middlewares := by rw [hkept]
  exact resolveRpc_eq_ok_iff.mpr ⟨rfl, hmiddlewares ▸ hlast⟩

/-- Methods that were resolved are resolved to themselves. -/
theorem resolve_resolved {methods resolved : List Rpc} {registry : Registry}
    (h : resolve methods registry = .ok resolved) :
    resolve resolved registry = .ok resolved := by
  apply mapM_eq_ok_iff.mpr
  rw [List.forall₂_same]
  intro rpc hmem
  obtain ⟨unresolved, -, hrpc⟩ := exists_of_mem_mapM h hmem
  exact resolveRpc_resolved hrpc

/-- What comes of resolving methods in a registry, whatever it holds. -/
structure Resolution (methods : List Rpc) (registry : Registry) : Prop where
  /-- It fails exactly when a middleware of some method is missing from the registry. -/
  fails : (∃ fault, resolve methods registry = .error fault) ↔
    ∃ rpc ∈ methods, ∃ ref ∈ rpc.middlewares, ref.path ∉ registry.map (·.path)
  /-- It then fails as a fault in the registry that names the first such middleware and points at
  it. -/
  reported : ∀ fault, resolve methods registry = .error fault →
    ∃ ref, FirstMissing methods registry ref ∧ fault.kind = .registry ∧
      fault.message = "Impossible generator error: " ++ ref.path ++ " is not in the registry" ∧
      fault.span = ref.span
  /-- Otherwise the methods stay as they are but for their indices, which are the last positions of
  the paths of their middlewares. -/
  resolved : ∀ resolved, resolve methods registry = .ok resolved →
    List.Forall₂ (fun rpc rpc' => rpc' = { rpc with indices := rpc'.indices } ∧
      List.Forall₂ (fun (index : Int) (ref : MiddlewareRef) =>
        ∃ position : Nat, index = position ∧ registry.LastAt ref.path position)
        rpc'.indices rpc.middlewares) methods resolved
  /-- Resolving the result again changes nothing. -/
  again : ∀ resolved, resolve methods registry = .ok resolved →
    resolve resolved registry = .ok resolved

/-- Methods are resolved in any registry, or refused for the first middleware that it lacks. -/
theorem resolution (methods : List Rpc) (registry : Registry) : Resolution methods registry := by
  refine ⟨?_, ?_, ?_, fun resolved => resolve_resolved⟩
  · constructor
    · rintro ⟨fault, hfault⟩
      obtain ⟨ref, ⟨rpc, ⟨before, after, rfl, -, hlacks⟩, -⟩, -⟩ := resolve_eq_error_iff.mp hfault
      exact ⟨rpc, List.mem_append_right before List.mem_cons_self, hlacks⟩
    · rintro ⟨rpc, hrpc, ref, href, hlacks⟩
      cases hresolve : resolve methods registry with
      | error fault => exact ⟨fault, rfl⟩
      | ok resolved =>
        have hpaths := exists_resolve_iff.mp ⟨resolved, hresolve⟩
        exact absurd (hpaths rpc hrpc ref.path (List.mem_map_of_mem href)) hlacks
  · intro fault hfault
    obtain ⟨ref, hfirst, rfl⟩ := resolve_eq_error_iff.mp hfault
    exact ⟨ref, hfirst, rfl, rfl, rfl⟩
  · intro resolved hresolved
    exact (mapM_eq_ok_iff.mp hresolved).imp fun _ _ h => resolveRpc_eq_ok_iff.mp h

end Interpose.Registry
