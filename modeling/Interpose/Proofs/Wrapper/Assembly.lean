import Interpose.Call.Assembly
import Interpose.Proofs.Except
import Interpose.Proofs.Wrapper.Names
import Mathlib.Data.List.Nodup

/-!
# What the fields of a wrapper hold

A wrapper holds the object that it is made around and, in the field with an index, the middleware at
that position. The variables that pass the parts on have distinct names, so no part is lost or
exchanged on the way.
-/

namespace Interpose

/-- An index that counts from zero is written with its digits. -/
theorem fieldName_natCast (n : Nat) :
    fieldName (n : Int) = String.ofList fieldFront ++ toString n := rfl

/-- Different indices give different fields. -/
theorem fieldName_natCast_injective : Function.Injective fun n : Nat => fieldName (n : Int) := by
  intro m n h
  simp only [fieldName_natCast, ← String.toList_inj, String.toList_append,
    List.append_cancel_left_eq] at h
  exact toString_injective (String.toList_inj.mp h)

/-- A middleware field is named like none of the other variables of a wrapper. -/
theorem fieldName_ne_of_head {n : Nat} {name : String} (h : name.toList.head? ≠ some 'm') :
    fieldName (n : Int) ≠ name := by
  rintro rfl
  simp [fieldName_natCast, fieldFront] at h

@[simp] theorem length_fieldNames (count : Nat) : (fieldNames count).length = count := by
  simp [fieldNames]

theorem nodup_fieldNames (count : Nat) : (fieldNames count).Nodup :=
  List.nodup_range.map fieldName_natCast_injective

theorem mem_fieldNames {count : Nat} {name : String} :
    name ∈ fieldNames count ↔ ∃ n < count, fieldName (n : Int) = name := by
  simp [fieldNames]

/-- The receiver of a method is no middleware field. -/
theorem nodup_receiver_fieldNames (count : Nat) : (receiver :: fieldNames count).Nodup := by
  refine List.nodup_cons.mpr ⟨?_, nodup_fieldNames count⟩
  rw [mem_fieldNames]
  rintro ⟨n, _, he⟩
  exact fieldName_ne_of_head (by decide) he

/-- The field of the implementation is no middleware field. -/
theorem nodup_implementationField_fieldNames (count : Nat) :
    (implementationField :: fieldNames count).Nodup := by
  refine List.nodup_cons.mpr ⟨?_, nodup_fieldNames count⟩
  rw [mem_fieldNames]
  rintro ⟨n, _, he⟩
  exact fieldName_ne_of_head (by decide) he

/-! ## Passing parts by position -/

/-- A key that occurs once is found with its value. -/
theorem lookup_eq_some_of_mem {α : Type} {table : List (String × α)} {key : String} {value : α}
    (hn : (table.map Prod.fst).Nodup) (h : (key, value) ∈ table) :
    table.lookup key = some value := by
  induction table with
  | nil => simp at h
  | cons entry table ih =>
    obtain ⟨other, first⟩ := entry
    rw [List.map_cons, List.nodup_cons] at hn
    rcases List.mem_cons.mp h with he | hm
    · simp only [Prod.mk.injEq] at he
      simp [he.1, he.2]
    · have hne : key ≠ other := by
        rintro rfl
        exact hn.1 (List.mem_map.mpr ⟨_, hm, rfl⟩)
      rw [List.lookup_cons, beq_eq_false_iff_ne.mpr hne]
      exact ih hn.2 hm

/-- As many arguments as parameters are bound in order. -/
theorem bindArguments_eq {α : Type} {parameters : List String} {arguments : List α}
    (h : parameters.length = arguments.length) (callee : String) (bound : Nat) :
    bindArguments callee bound parameters arguments = .ok (parameters.zip arguments) := by
  simp [bindArguments, h]

/-- Distinct variables give back what they were bound to. -/
theorem forall₂_readVariable_zip {α : Type} {names : List String} {values : List α}
    (hn : names.Nodup) (hl : names.length = values.length) :
    List.Forall₂ (fun name value => readVariable (names.zip values) name = .ok value) names
      values := by
  refine List.forall₂_iff_zip.mpr ⟨hl, fun {name value} hmem => ?_⟩
  have hkeys : ((names.zip values).map Prod.fst).Nodup := by
    rwa [List.map_fst_zip (Nat.le_of_eq hl)]
  rw [readVariable, lookup_eq_some_of_mem hkeys hmem]

/-- A wrapper keeps its arguments in the fields of its parameters, in order. -/
theorem Wrapper.init_eq {wrapper : Wrapper} {arguments : List Part}
    (hl : wrapper.kept.length = arguments.length) :
    wrapper.init arguments = .ok (wrapper.kept.zip arguments) := by
  have hn : wrapper.kept.Nodup := nodup_implementationField_fieldNames _
  rw [Wrapper.init, bindArguments_eq hl]
  refine mapM_eq_ok_iff.mpr ?_
  have hread := forall₂_readVariable_zip hn hl
  refine List.forall₂_iff_get.mpr ⟨by simp [hl], fun i hi hj => ?_⟩
  have hj' : i < arguments.length := hl ▸ hi
  have hvalue := (List.forall₂_iff_get.mp hread).2 i hi hj'
  simp only [List.get_eq_getElem, List.getElem_zip] at hvalue ⊢
  rw [hvalue]
  rfl

/-- The implementing object passes itself on, and every middleware at its own position. -/
theorem Implementor.mapM_passed_eq {implementor : Implementor} {middlewares : List String}
    (h : implementor.fields.length = middlewares.length) :
    implementor.passed.mapM (readVariable (implementor.parameters.zip
        (Part.implementation :: middlewares.map Part.middleware))) =
      .ok (Part.implementation :: middlewares.map Part.middleware) := by
  refine mapM_eq_ok_iff.mpr (forall₂_readVariable_zip ?_ ?_)
  · exact nodup_receiver_fieldNames _
  · simp [Implementor.parameters, h]

namespace Service

variable (service : Service)

theorem init_wrapper : service.wrapper.init
    (.implementation :: service.fields.map Part.middleware) =
      .ok ((implementationField, .implementation) ::
        (fieldNames service.fields.length).zip (service.fields.map Part.middleware)) :=
  Wrapper.init_eq (by simp [Wrapper.kept, wrapper])

/-- A service's wrapper holds the implementation and, in order, the middlewares of the registry. -/
theorem attributes_eq : service.attributes = (implementationField, .implementation) ::
    (fieldNames service.fields.length).zip (service.fields.map Part.middleware) := by
  rw [attributes, init_wrapper]
  rfl

/-- A service's wrapper is made from the implementation and the middlewares of the registry. -/
theorem init_wrapper_eq : service.wrapper.init
    (.implementation :: service.fields.map Part.middleware) = .ok service.attributes := by
  rw [init_wrapper, attributes_eq]

/-- The field of the implementation holds it. -/
theorem lookup_attributes_implementationField :
    service.attributes.lookup implementationField = some .implementation := by
  simp [attributes_eq]

/-- The field with an index holds the middleware at that position of the registry. -/
theorem lookup_attributes_fieldName {index : Nat} {path : String}
    (h : service.fields[index]? = some path) :
    service.attributes.lookup (fieldName index) = some (.middleware path) := by
  have hn : (service.attributes.map Prod.fst).Nodup := by
    rw [attributes_eq, List.map_cons, List.map_fst_zip (by simp)]
    exact nodup_implementationField_fieldNames _
  refine lookup_eq_some_of_mem hn ?_
  rw [attributes_eq]
  refine List.mem_cons_of_mem _ (List.mem_of_getElem? (i := index) ?_)
  obtain ⟨hi, hp⟩ := List.getElem?_eq_some_iff.mp h
  simp [fieldNames, hi, hp]

/-- Every field has a name that no method of an accepted definition may take. -/
theorem isReserved_of_mem_attributes {name : String} (h : name ∈ service.attributes.map Prod.fst) :
    isReserved name = true := by
  rw [attributes_eq, List.map_cons, List.map_fst_zip (by simp)] at h
  rcases List.mem_cons.mp h with rfl | hf
  · decide +kernel
  · obtain ⟨n, _, rfl⟩ := mem_fieldNames.mp hf
    have hd : (Nat.toDigits 10 n).all Text.isDecimalDigit = true := by
      refine List.all_eq_true.mpr fun c hc => ?_
      exact Text.isDecimalDigit_of_isDigit (Nat.isDigit_of_mem_toDigits (by decide) (by decide) hc)
    simp [isReserved, fieldName_natCast, fieldFront, Nat.toDigits_ne_nil, hd]

/-- No field has a name that a method of an accepted definition may take. -/
theorem lookup_attributes_eq_none {name : String} (h : isReserved name = false) :
    service.attributes.lookup name = none := by
  refine List.lookup_eq_none_iff.mpr fun entry he => ?_
  refine bne_iff_ne.mpr ?_
  rintro rfl
  have hr := service.isReserved_of_mem_attributes (List.mem_map.mpr ⟨entry, he, rfl⟩)
  simp [h] at hr

end Service

end Interpose
