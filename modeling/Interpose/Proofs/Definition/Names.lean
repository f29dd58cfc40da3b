import Interpose.Definition.Names
import Interpose.Proofs.Definition.Spans

/-!
# Accepted names

Checking names accepts exactly the blocks with distinct names whose methods have distinct names that
no wrapper needs. What is accepted does not depend on spans.
-/

namespace Interpose

variable {Body Other : Type}

/-- Blocks whose names are accepted. -/
structure NamesAccepted (impls : List (ImplDef Body)) : Prop where
  /-- The blocks have distinct names. -/
  distinct : (impls.map (·.name)).Nodup
  /-- So have the methods of each block. -/
  methods : ∀ impl ∈ impls, (impl.methods.map (·.name)).Nodup
  /-- No method takes a name that the wrapper needs. -/
  unreserved : ∀ impl ∈ impls, ∀ method ∈ impl.methods, isReserved method.name = false

theorem checkMethods_eq_ok_iff (impl : String) (seen : List String)
    (methods : List (MethodDef Body)) : checkMethods impl seen methods = .ok () ↔
      (methods.map (·.name)).Nodup ∧ (∀ method ∈ methods, method.name ∉ seen) ∧
        ∀ method ∈ methods, isReserved method.name = false := by
  induction methods generalizing seen with
  | nil => simp [checkMethods]
  | cons method methods ih =>
    rw [checkMethods]
    by_cases hseen : method.name ∈ seen
    · simp [hseen]
    · by_cases hreserved : isReserved method.name = true
      · simp [hseen, hreserved]
      · rw [if_neg hseen, if_neg hreserved, ih]
        simp only [List.map_cons, List.nodup_cons, List.mem_map, List.mem_cons, not_or,
          forall_eq_or_imp]
        constructor
        · rintro ⟨hnodup, hnew, hfree⟩
          refine ⟨⟨?_, hnodup⟩, ⟨hseen, fun other hmem => (hnew other hmem).2⟩,
            by simpa using hreserved, hfree⟩
          rintro ⟨other, hmem, hname⟩
          exact (hnew other hmem).1 hname
        · rintro ⟨⟨hfirst, hnodup⟩, ⟨_, hnew⟩, _, hfree⟩
          refine ⟨hnodup, fun other hmem => ⟨fun hname => ?_, hnew other hmem⟩, hfree⟩
          exact hfirst ⟨other, hmem, hname⟩

theorem checkImpls_eq_ok_iff (seen : List String) (impls : List (ImplDef Body)) :
    checkImpls seen impls = .ok () ↔
      (∀ impl ∈ impls, impl.name ∉ seen) ∧ NamesAccepted impls := by
  induction impls generalizing seen with
  | nil => simpa [checkImpls] using NamesAccepted.mk (by simp) (by simp) (by simp)
  | cons impl impls ih =>
    have hmethods := checkMethods_eq_ok_iff impl.name [] impl.methods
    rw [checkImpls]
    by_cases hseen : impl.name ∈ seen
    · simp [hseen]
    · rw [if_neg hseen]
      cases hcheck : checkMethods impl.name [] impl.methods with
      | error fault =>
        rw [hcheck] at hmethods
        refine ⟨fun h => by simp at h, fun ⟨_, h⟩ => ?_⟩
        have hok := hmethods.mpr ⟨h.methods impl List.mem_cons_self, by simp,
          h.unreserved impl List.mem_cons_self⟩
        simp at hok
      | ok _ =>
        obtain ⟨hnodup, _, hfree⟩ := hmethods.mp hcheck
        rw [ih]
        constructor
        · rintro ⟨hnew, h⟩
          refine ⟨fun other hmem => ?_, ?_, ?_, ?_⟩
          · rcases List.mem_cons.mp hmem with rfl | hmem
            · exact hseen
            · exact fun hin => hnew other hmem (List.mem_cons_of_mem _ hin)
          · rw [List.map_cons, List.nodup_cons]
            refine ⟨fun hin => ?_, h.distinct⟩
            obtain ⟨other, hmem, hname⟩ := List.mem_map.mp hin
            exact hnew other hmem (hname ▸ List.mem_cons_self)
          · exact List.forall_mem_cons.mpr ⟨hnodup, h.methods⟩
          · exact List.forall_mem_cons.mpr ⟨hfree, h.unreserved⟩
        · rintro ⟨hnew, h⟩
          obtain ⟨hfirst, hdistinct⟩ := List.nodup_cons.mp h.distinct
          refine ⟨fun other hmem hin => ?_, hdistinct,
            fun other hmem => h.methods other (List.mem_cons_of_mem _ hmem),
            fun other hmem => h.unreserved other (List.mem_cons_of_mem _ hmem)⟩
          rcases List.mem_cons.mp hin with hname | hin
          · exact hfirst (List.mem_map.mpr ⟨other, hmem, hname⟩)
          · exact hnew other (List.mem_cons_of_mem _ hmem) hin

/-- Names are checked for being distinct and free. -/
theorem checkNames_eq_ok_iff (impls : List (ImplDef Body)) :
    checkNames impls = .ok () ↔ NamesAccepted impls := by
  rw [checkNames, checkImpls_eq_ok_iff]
  simp

/-- Every fault of the check for names is about names that do not fit together. -/
theorem kind_of_checkMethods {impl : String} {seen : List String}
    {methods : List (MethodDef Body)} {fault : Fault}
    (h : checkMethods impl seen methods = .error fault) : fault.kind = .consistency := by
  induction methods generalizing seen with
  | nil => cases h
  | cons method methods ih =>
    rw [checkMethods] at h
    split at h
    · rw [← Except.error.inj h]
      rfl
    · split at h
      · rw [← Except.error.inj h]
        rfl
      · exact ih h

theorem kind_of_checkImpls {seen : List String} {impls : List (ImplDef Body)} {fault : Fault}
    (h : checkImpls seen impls = .error fault) : fault.kind = .consistency := by
  induction impls generalizing seen with
  | nil => cases h
  | cons impl impls ih =>
    rw [checkImpls] at h
    split at h
    · rw [← Except.error.inj h]
      rfl
    · split at h
      · rename_i other hmethods
        rw [← Except.error.inj h]
        exact kind_of_checkMethods hmethods
      · exact ih h

/-- The name of a block and those of its methods. -/
def ImplDef.names (impl : ImplDef Body) : String × List String :=
  (impl.name, impl.methods.map (·.name))

theorem namesAccepted_iff_forall {impls : List (ImplDef Body)} : NamesAccepted impls ↔
    ((impls.map ImplDef.names).map Prod.fst).Nodup ∧
      ∀ names ∈ impls.map ImplDef.names, names.2.Nodup ∧
        ∀ name ∈ names.2, isReserved name = false := by
  have hfst : (impls.map ImplDef.names).map Prod.fst = impls.map (·.name) := by
    rw [List.map_map]
    rfl
  rw [hfst, List.forall_mem_map]
  constructor
  · rintro ⟨hdistinct, hmethods, hfree⟩
    exact ⟨hdistinct, fun impl himpl =>
      ⟨hmethods impl himpl, List.forall_mem_map.mpr (hfree impl himpl)⟩⟩
  · rintro ⟨hdistinct, hblocks⟩
    exact ⟨hdistinct, fun impl himpl => (hblocks impl himpl).1,
      fun impl himpl => List.forall_mem_map.mp (hblocks impl himpl).2⟩

/-- Whether names are accepted depends on names only. -/
theorem namesAccepted_iff_of_names_eq {impls : List (ImplDef Body)} {others : List (ImplDef Other)}
    (h : impls.map ImplDef.names = others.map ImplDef.names) :
    NamesAccepted impls ↔ NamesAccepted others := by
  rw [namesAccepted_iff_forall, h, ← namesAccepted_iff_forall]

theorem namesAccepted_iff_of_mapSpan_eq {impls others : List (ImplDef Body)} {f : Span → Span}
    {onBody : Body → Body}
    (h : impls.map (·.mapSpan f onBody) = others.map (·.mapSpan f onBody)) :
    NamesAccepted impls ↔ NamesAccepted others := by
  have hmap : ∀ impls : List (ImplDef Body),
      (impls.map (·.mapSpan f onBody)).map ImplDef.names = impls.map ImplDef.names := by
    intro impls
    rw [List.map_map]
    refine List.map_congr_left fun impl _ => ?_
    rw [Function.comp_apply, ImplDef.names, ImplDef.names, ImplDef.mapSpan, List.map_map]
    rfl
  refine namesAccepted_iff_of_names_eq ?_
  rw [← hmap impls, h, hmap others]

end Interpose
