import Interpose.Proofs.Definition.Cleaning
import Interpose.Proofs.Definition.Printed
import Interpose.Proofs.Definition.Soundness
import Interpose.Proofs.Except

/-!
# Definitions with clean bodies

A body that is clean comes back from between its fences, and what is kept of any body that was read
is clean. So cleaning gives a printed definition back, and every cleaned definition can be printed.
Spans make no difference to what is kept.
-/

namespace Interpose

open Source Text

variable {place : Place} {f : Span → Span}

/-! ## Bodies -/

/-- A body is cleaned unless text stands both next to its opening fence and below. -/
theorem Fenced.clean_eq_ok_iff {body : Fenced} {kept : String} :
    body.clean = .ok kept ↔ textOnFence (splitLines body.text.toList) = false ∧
      String.ofList (joinLines (keptLines (splitLines body.text.toList))) = kept := by
  unfold Fenced.clean
  by_cases hfence : textOnFence (splitLines body.text.toList) = true
  · simp [hfence]
  · simp [hfence]

/-- What is kept of a body depends on its text only. -/
theorem Fenced.clean_of_clean_mapSpan {body : Fenced} {kept : String}
    (h : (body.mapSpan f).clean = .ok kept) : body.clean = .ok kept := by
  obtain ⟨hfence, hkept⟩ := clean_eq_ok_iff.mp h
  exact clean_eq_ok_iff.mpr ⟨hfence, hkept⟩

/-- A clean body on lines of its own is kept as it is. -/
theorem clean_printedBody {body : String} (h : IsClean body) :
    (printedBody place body).clean = .ok body := by
  have hlines : splitLines (printedBody place body).text.toList =
      [] :: (splitLines body.toList ++ [[]]) := by
    simp [printedBody, splitLines_cons, splitLines_append]
  have hblank : isBlankLine [] = true := rfl
  have hkept : keptLines ([] :: (splitLines body.toList ++ [[]])) =
      keptLines (splitLines body.toList) := by
    rw [keptLines, trimBlankLines_cons hblank, trimBlankLines_concat hblank, ← keptLines]
  rw [Fenced.clean_eq_ok_iff, hlines, hkept, h.kept, String.ofList_toList]
  exact ⟨rfl, rfl⟩

/-- What is kept of a body without fences is clean. -/
theorem isClean_of_clean {body : Fenced} {kept : String} (hbody : Unfenced body)
    (h : body.clean = .ok kept) : IsClean kept := by
  obtain ⟨_, rfl⟩ := Fenced.clean_eq_ok_iff.mp h
  refine ⟨by simpa using keptLines_splitLines_joinLines body.text.toList, fun hfence => hbody ?_⟩
  rw [String.toList_ofList] at hfence
  by_cases hne : keptLines (splitLines body.text.toList) = []
  · rw [hne] at hfence
    exact absurd (List.infix_nil.mp hfence) (by decide)
  · obtain ⟨line, hmem, hline⟩ := exists_infix_of_infix_joinLines (by decide) hne hfence
    obtain ⟨raw, hraw, hin⟩ := exists_infix_of_mem_keptLines hmem
    have htext := infix_joinLines_of_mem hraw
    rw [joinLines_splitLines] at htext
    exact (hline.trans hin).trans htext

/-! ## Printed definitions -/

/-- A method whose body is fenced on lines of its own is kept as it is. -/
theorem MethodDef.clean_fenced {method : MethodDef String} (h : method.WellFormed IsClean) :
    (method.fenced place).clean = .ok (method.mapSpan (Span.moveTo place) id) :=
  map_eq_ok_iff.mpr ⟨method.body, clean_printedBody h.body, rfl⟩

/-- A block whose bodies are fenced on lines of their own is kept as it is. -/
theorem ImplDef.clean_fenced {impl : ImplDef String} (h : impl.WellFormed IsClean) :
    (impl.fenced place).clean = .ok (impl.mapSpan (Span.moveTo place) id) :=
  map_eq_ok_iff.mpr ⟨_, mapM_map_eq_ok fun _ hmem => MethodDef.clean_fenced (h.methods _ hmem), rfl⟩

/-- A printed definition is cleaned to itself. -/
theorem Definition.clean_fenced {definition : Definition String} (h : definition.WellFormed)
    (place : Place) :
    (definition.fenced place).clean = .ok (definition.mapSpan (Span.moveTo place) id) :=
  map_eq_ok_iff.mpr ⟨_, mapM_map_eq_ok fun _ hmem => ImplDef.clean_fenced (h.impls _ hmem), rfl⟩

/-- The one fault of cleaning is text beside the fence of a body. -/
theorem exists_of_clean_eq_error {definition : Definition Fenced} {fault : Fault}
    (h : definition.clean = .error fault) : ∃ span text, fault = .textOnFence span text := by
  obtain ⟨impl, _, himpl⟩ := exists_of_mapM_eq_error (map_eq_error_iff.mp h)
  obtain ⟨method, _, hmethod⟩ := exists_of_mapM_eq_error (map_eq_error_iff.mp himpl)
  have hbody : method.body.clean = .error fault := map_eq_error_iff.mp hmethod
  unfold Fenced.clean at hbody
  by_cases hfence : textOnFence (splitLines method.body.text.toList) = true
  · simp only [hfence, if_true, Except.error.injEq] at hbody
    exact ⟨_, _, hbody.symm⟩
  · simp [hfence] at hbody

/-! ## Definitions at other spans -/

/-- What is kept of a method with other spans is kept of it. -/
theorem MethodDef.exists_clean_of_mapSpan (method : MethodDef Fenced) (cleaned : MethodDef String)
    (h : (method.mapSpan f (Fenced.mapSpan f)).clean = .ok cleaned) :
    ∃ kept, method.clean = .ok kept ∧ kept.mapSpan f id = cleaned := by
  obtain ⟨body, hbody, rfl⟩ := map_eq_ok_iff.mp h
  have hkept : method.body.clean = .ok body := Fenced.clean_of_clean_mapSpan hbody
  exact ⟨_, map_eq_ok_iff.mpr ⟨body, hkept, rfl⟩, rfl⟩

/-- What is kept of a block with other spans is kept of it. -/
theorem ImplDef.exists_clean_of_mapSpan (impl : ImplDef Fenced) (cleaned : ImplDef String)
    (h : (impl.mapSpan f (Fenced.mapSpan f)).clean = .ok cleaned) :
    ∃ kept, impl.clean = .ok kept ∧ kept.mapSpan f id = cleaned := by
  obtain ⟨methods, hmethods, rfl⟩ := map_eq_ok_iff.mp h
  obtain ⟨kept, hkept, rfl⟩ :=
    exists_mapM_of_mapM_map MethodDef.exists_clean_of_mapSpan hmethods
  exact ⟨_, map_eq_ok_iff.mpr ⟨kept, hkept, rfl⟩, rfl⟩

/-- A definition can be cleaned when it can be at other spans, and the results agree. -/
theorem Definition.exists_clean_of_mapSpan {definition : Definition Fenced}
    {cleaned : Definition String}
    (h : (definition.mapSpan f (Fenced.mapSpan f)).clean = .ok cleaned) :
    ∃ kept, definition.clean = .ok kept ∧ kept.mapSpan f id = cleaned := by
  obtain ⟨impls, himpls, rfl⟩ := map_eq_ok_iff.mp h
  obtain ⟨kept, hkept, rfl⟩ := exists_mapM_of_mapM_map ImplDef.exists_clean_of_mapSpan himpls
  exact ⟨_, map_eq_ok_iff.mpr ⟨kept, hkept, rfl⟩, rfl⟩

/-- A method is cleaned alike with other spans. -/
theorem MethodDef.clean_mapSpan (method : MethodDef Fenced) (cleaned : MethodDef String)
    (h : method.clean = .ok cleaned) :
    (method.mapSpan f (Fenced.mapSpan f)).clean = .ok (cleaned.mapSpan f id) := by
  obtain ⟨body, hbody, rfl⟩ := map_eq_ok_iff.mp h
  have hkept : (method.body.mapSpan f).clean = .ok body := by
    obtain ⟨hfence, hlines⟩ := Fenced.clean_eq_ok_iff.mp hbody
    exact Fenced.clean_eq_ok_iff.mpr ⟨hfence, hlines⟩
  exact map_eq_ok_iff.mpr ⟨body, hkept, rfl⟩

/-- A block is cleaned alike with other spans. -/
theorem ImplDef.clean_mapSpan (impl : ImplDef Fenced) (cleaned : ImplDef String)
    (h : impl.clean = .ok cleaned) :
    (impl.mapSpan f (Fenced.mapSpan f)).clean = .ok (cleaned.mapSpan f id) := by
  obtain ⟨methods, hmethods, rfl⟩ := map_eq_ok_iff.mp h
  exact map_eq_ok_iff.mpr ⟨_, mapM_map_of_mapM MethodDef.clean_mapSpan hmethods, rfl⟩

/-- A definition that can be cleaned can be at other spans, with the same result at those spans. -/
theorem Definition.clean_mapSpan {definition : Definition Fenced} {cleaned : Definition String}
    (h : definition.clean = .ok cleaned) :
    (definition.mapSpan f (Fenced.mapSpan f)).clean = .ok (cleaned.mapSpan f id) := by
  obtain ⟨impls, himpls, rfl⟩ := map_eq_ok_iff.mp h
  exact map_eq_ok_iff.mpr ⟨_, mapM_map_of_mapM ImplDef.clean_mapSpan himpls, rfl⟩

/-! ## Cleaned definitions -/

/-- A method without fences is well formed when it is cleaned. -/
theorem MethodDef.WellFormed.of_clean {method : MethodDef Fenced} {cleaned : MethodDef String}
    (h : method.WellFormed Unfenced) (hclean : method.clean = .ok cleaned) :
    cleaned.WellFormed IsClean := by
  obtain ⟨body, hbody, rfl⟩ := map_eq_ok_iff.mp hclean
  exact ⟨h.name, h.params, h.result, isClean_of_clean h.body hbody, h.annotations⟩

/-- Cleaning a block that was read gives a block that can be printed. -/
theorem ImplDef.WellFormed.of_clean {impl : ImplDef Fenced} {cleaned : ImplDef String}
    (h : impl.WellFormed Unfenced) (hclean : impl.clean = .ok cleaned) :
    cleaned.WellFormed IsClean := by
  obtain ⟨methods, hmethods, rfl⟩ := map_eq_ok_iff.mp hclean
  refine ⟨h.name, h.bases, fun method hmem => ?_, h.annotations⟩
  obtain ⟨raw, hraw, hcleaned⟩ := exists_of_mem_mapM hmethods hmem
  exact (h.methods raw hraw).of_clean hcleaned

end Interpose
