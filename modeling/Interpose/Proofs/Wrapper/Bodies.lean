import Interpose.Proofs.Definition.Cleaning
import Interpose.Proofs.Wrapper.Module
import Interpose.Proofs.Wrapper.Names

/-!
# Bodies in generated modules

A body is written under the line that opens its method, with a margin before each line that holds
text. The margin is put before every piece between two line boundaries, and newlines are only one
kind of them. So the lines of a body come back without their margin exactly when the body holds no
other boundary.
-/

namespace Interpose

open Source Text

/-! ## Bodies and their lines -/

/-- A body that holds text and is clean is tidy. -/
theorem IsClean.tidy {body : String} (h : IsClean body) (hne : body ≠ "") :
    Tidy (splitLines body.toList) := by
  have hkept : keptLines (splitLines body.toList) ≠ [] := by
    intro hnil
    have hempty := h.kept
    rw [hnil] at hempty
    exact hne (String.toList_inj.mp hempty.symm)
  have hlines : splitLines body.toList = keptLines (splitLines body.toList) := by
    rw [← splitLines_joinLines hkept fun _ => notMem_of_mem_keptLines, h.kept]
  rw [hlines]
  exact tidy_keptLines _

/-- A text with a line that holds text holds text. -/
theorem isBlankLine_eq_false_of_mem {cs line : List Char} (hmem : line ∈ splitLines cs)
    (hline : isBlankLine line = false) : isBlankLine cs = false := by
  rw [← Bool.not_eq_true] at *
  intro hblank
  have hin := infix_joinLines_of_mem hmem
  rw [joinLines_splitLines] at hin
  exact hline (List.all_eq_true.mpr fun c hc => List.all_eq_true.mp hblank c (hin.subset hc))

/-- The lines of a text, joined, are the text. -/
theorem intercalate_linesOf (text : String) : "\n".intercalate (linesOf text) = text := by
  have hjoin : ∀ lines : List (List Char),
      "\n".intercalate (lines.map String.ofList) = String.ofList (joinLines lines) := by
    intro lines
    induction lines with
    | nil => rfl
    | cons line lines ih =>
      cases lines with
      | nil => simp
      | cons next lines =>
        rw [List.map_cons, List.map_cons, String.intercalate_cons_cons, ← List.map_cons, ih,
          joinLines_cons_cons, ← String.toList_inj]
        simp
  rw [linesOf, hjoin, joinLines_splitLines, String.ofList_toList]

/-! ## Where a body is written -/

theorem HeldBody.title_eq (body : HeldBody) :
    body.title = "    async def " ++ bodyName body.method ++ "(" ++
      (body.params ++ ") -> " ++ body.response ++ ":") := by
  unfold title
  rw [← String.toList_inj]
  simp

/-- No line of a body opens a method. -/
theorem not_method_of_mem_indentedBody {body : String} :
    ∀ line ∈ linesOf (indentedBody body), begins "    async def " line = false := by
  intro line hmem
  exact begins_eq_false_of_shallow (shallow_of_mem_linesOf hmem) (by decide)

/-- The lines of a body stand after the one that opens its method. An empty line and the next method
follow them, or the end of the class. -/
theorem Implementor.body_inner {implementor : Implementor}
    (hnames : (implementor.bodies.map (·.method)).Nodup)
    (hplain : ∀ body ∈ implementor.bodies, '(' ∉ body.method.toList) {body : HeldBody}
    (hmem : body ∈ implementor.bodies) :
    linesBetween (begins ("    async def " ++ bodyName body.method ++ "("))
        (begins "    async def ") implementor.inner =
      linesOf (indentedBody body.text) ++ [""] := by
  have hkeys : (implementor.bodies.map fun body => bodyName body.method).Nodup := by
    have hmap := hnames.map bodyName_injective
    rwa [List.map_map] at hmap
  have hplainKeys : ∀ body ∈ implementor.bodies, '(' ∉ (bodyName body.method).toList :=
    fun other hother => parenthesis_notMem_bodyName_iff.mpr (hplain other hother)
  obtain ⟨after, hafter⟩ : ∃ after,
      linesAfter (begins ("    async def " ++ bodyName body.method ++ "(")) implementor.inner =
        linesOf (indentedBody body.text) ++
          (sections HeldBody.title (fun body => linesOf (indentedBody body.text)) after ++ [""]) :=
    linesAfter_sections (by decide) (fun body => ⟨_, body.title_eq⟩) hkeys hplainKeys
      implementor.not_method_of_mem_head (fun _ => not_method_of_mem_indentedBody) hmem
  have hinner : ∀ line ∈ linesOf (indentedBody body.text) ++ [""],
      begins "    async def " line = false := by
    rw [List.forall_mem_append]
    exact ⟨not_method_of_mem_indentedBody, by decide⟩
  rw [linesBetween, hafter]
  cases after with
  | nil => exact linesUntil_eq_self hinner
  | cons next after =>
    rw [sections_cons, List.cons_append, List.append_cons]
    exact linesUntil_append hinner next.begins_title

/-- The lines of a method's body in the second class of a text. The empty line after a body is none
of its lines. -/
def writtenBody (text name : String) : List String :=
  (linesBetween (begins ("    async def _" ++ name ++ "_impl(")) (begins "    async def ")
    (secondClass text)).dropLast

/-- The text of a service holds the bodies of its methods. -/
theorem Service.Lined.writtenBody_text {service : Service} (h : service.Lined)
    (hnames : (service.methods.map (·.name)).Nodup) {rpc : Rpc} (hrpc : rpc ∈ service.methods) :
    writtenBody service.text rpc.name = linesOf (indentedBody rpc.body) := by
  have hbodies : (service.implementorClass.bodies.map (·.method)).Nodup := by
    rw [Service.implementorClass, List.map_map]
    exact hnames
  have hplain : ∀ body ∈ service.implementorClass.bodies, '(' ∉ body.method.toList := by
    refine List.forall_mem_map.mpr fun other hother => ?_
    exact notMem_of_isName (by decide) (by decide) (h.methods other hother).name
  have hinner := Implementor.body_inner hbodies hplain (List.mem_map_of_mem hrpc)
  rw [writtenBody, h.secondClass_text, bodyFront_eq]
  exact (congrArg List.dropLast hinner).trans List.dropLast_concat

/-! ## Retained bodies -/

/-- A line of a body as it is written when the body is retained. -/
def retainedLine (line : String) : String :=
  if isBlankLine line.toList then "" else "        " ++ line

/-- The lines of a body that is retained. -/
structure Retained (body : String) (written : List String) : Prop where
  /-- They are the body's lines: a margin of eight spaces stands before each one that holds text,
  and the blank ones are empty. -/
  lines : written = (linesOf body).map retainedLine
  /-- Without the margin they make up the body again. -/
  restored : "\n".intercalate (written.map fun line => String.ofList (line.toList.drop 8)) = body

theorem retainedLine_ofList {line : List Char} (h : trimEnd line = line) :
    retainedLine (String.ofList line) = String.ofList (shifted bodyMargin line) := by
  rw [retainedLine, String.toList_ofList, shifted]
  by_cases hblank : isBlankLine line = true
  · rw [if_pos hblank, if_pos hblank, ← h, trimEnd_eq_nil_iff.mpr hblank]
  · rw [if_neg hblank, if_neg hblank, ← String.toList_inj]
    simp [bodyMargin]

/-- A retained line without the margin is the line of the body. -/
theorem drop_retainedLine {line : List Char} (h : trimEnd line = line) :
    String.ofList ((retainedLine (String.ofList line)).toList.drop 8) = String.ofList line := by
  rw [retainedLine_ofList h, String.toList_ofList, shifted]
  by_cases hblank : isBlankLine line = true
  · rw [if_pos hblank, ← h, trimEnd_eq_nil_iff.mpr hblank]
    rfl
  · have hdrop : (bodyMargin ++ line).drop 8 = line := List.drop_left' rfl
    rw [if_neg hblank, hdrop]

/-- A tidy body is restored from its retained lines. -/
theorem Tidy.retained {body : String} (h : Tidy (splitLines body.toList)) :
    Retained body ((linesOf body).map retainedLine) := by
  refine ⟨rfl, ?_⟩
  have hdrop : ((linesOf body).map retainedLine).map
      (fun line => String.ofList (line.toList.drop 8)) = linesOf body := by
    rw [List.map_map, linesOf, List.map_map]
    exact List.map_congr_left fun line hmem => drop_retainedLine (h.trimmed line hmem)
  rw [hdrop, intercalate_linesOf]

/-- A clean body that holds text is retained under its margin exactly when newlines are its only
boundaries. -/
theorem retained_indentedBody_iff {body : String} (h : IsClean body) (hne : body ≠ "") :
    Retained body (linesOf (indentedBody body)) ↔
      ∀ c ∈ body.toList, isBoundary c = true → c = '\n' := by
  have htidy := h.tidy hne
  have htext : isBlankLine body.toList = false := by
    obtain ⟨line, lines, hlines⟩ := List.exists_cons_of_ne_nil (splitLines_ne_nil body.toList)
    have hhead : line ∈ (splitLines body.toList).head? := by simp [hlines]
    exact isBlankLine_eq_false_of_mem (List.mem_of_head? hhead) (htidy.head line hhead)
  have hwritten : linesOf (indentedBody body) =
      (splitLines (addMargin bodyMargin body.toList)).map String.ofList := by
    unfold indentedBody
    rw [if_neg (by simp [htext]), linesOf, String.toList_ofList]
  have hretained : (linesOf body).map retainedLine =
      ((splitLines body.toList).map (shifted bodyMargin)).map String.ofList := by
    rw [linesOf, List.map_map, List.map_map]
    exact List.map_congr_left fun line hmem => retainedLine_ofList (htidy.trimmed line hmem)
  have hnewline : '\n' ∉ bodyMargin := by decide
  have hlast : ∃ d ∈ bodyMargin.getLast?, isBoundary d = false := ⟨' ', by decide, by decide⟩
  rw [← splitLines_addMargin_eq_iff hnewline hlast htidy.trimmed, hwritten]
  constructor
  · intro hbody
    have hinjective : Function.Injective String.ofList := fun _ _ => String.ofList_injective
    exact List.map_injective_iff.mpr hinjective (hbody.lines.trans hretained)
  · intro hlines
    rw [hlines, ← hretained]
    exact htidy.retained

/-- The bodies of a block's methods are retained in its service's text exactly when newlines are
their only boundaries. -/
theorem ImplDef.retained_writtenBody_iff {impl : ImplDef String} (himpl : impl.WellFormed IsClean)
    (hnames : (impl.methods.map (·.name)).Nodup) {service : Service}
    (h : impl.service = .ok service) {method : MethodDef String} (hmem : method ∈ impl.methods)
    (hne : method.body ≠ "") :
    Retained method.body (writtenBody service.text method.name) ↔
      ∀ c ∈ method.body.toList, isBoundary c = true → c = '\n' := by
  obtain ⟨rpc, hrpc, hkept⟩ := exists_mem_of_forall₂ (keeps_of_service h) hmem
  rw [← names_of_service h] at hnames
  rw [← hkept.name, (lined_of_service himpl h).writtenBody_text hnames hrpc, hkept.body]
  exact retained_indentedBody_iff (himpl.methods method hmem).body hne

/-- The body of a method, unless it is empty, is retained in the module of its file exactly when
newlines are the only boundaries that it holds: no line of it goes on behind a form feed, a carriage
return or a separator of another kind. -/
theorem retained_iff {support text code : String} (h : generate support text = .ok code) :
    ∃ definition services, Generated support text code definition services ∧
      List.Forall₂ (fun impl service => ∀ method ∈ impl.methods, method.body ≠ "" →
        (Retained method.body (writtenBody service.text method.name) ↔
          ∀ c ∈ method.body.toList, isBoundary c = true → c = '\n'))
        definition.impls services := by
  obtain ⟨definition, services, hgenerated⟩ := generate_eq_ok_iff.mp h
  refine ⟨definition, services, hgenerated, hgenerated.forall₂ ?_⟩
  intro impl _ service himpl hnames hservice method hmem hne
  exact ImplDef.retained_writtenBody_iff himpl hnames hservice hmem hne

/-- A text whose only body has an empty line. -/
def branchText : String :=
  singleText "f" "self, env, request: R" "\n  if env:\n\n    pass\n"

/-- The body comes back without its margin. -/
theorem retained_branch : ∃ code, generate defaultSupport branchText = .ok code ∧
    ∃ definition services, Generated defaultSupport branchText code definition services ∧
      List.Forall₂ (fun impl service => ∀ method ∈ impl.methods, method.body ≠ "" →
        Retained method.body (writtenBody service.text method.name)) definition.impls services := by
  have hparse : (parse branchText).map (fun definition => (definition.services.isOk,
      definition.impls.flatMap (·.methods.map (·.body)))) =
        .ok (true, ["if env:\n\n  pass"]) := by decide +kernel
  obtain ⟨code, hcode, hbodies⟩ := exists_generate_eq_ok hparse
  obtain ⟨definition, services, hgenerated, hretained⟩ := retained_iff hcode
  have hbody := (methods_of_flatMap_eq (hbodies definition services hgenerated)).1
  refine ⟨code, hcode, definition, services, hgenerated, forall₂_of_mem hretained ?_⟩
  intro impl himpl service hmethods method hmem hne
  refine (hmethods method hmem hne).mpr ?_
  have hlines : (method.body.toList.filter isBoundary).all (· = '\n') = true := by
    rw [hbody impl himpl method hmem]
    decide
  intro c hc hboundary
  simpa using List.all_eq_true.mp hlines c (List.mem_filter.mpr ⟨hc, hboundary⟩)

/-- A text whose only body holds a form feed in a literal. -/
def formFeedText : String := singleText "f" "self, env, request: R" "return \"a\x0cb\""

/-- The body is accepted, and written with a margin inside the literal. -/
theorem not_retained : ∃ code, generate defaultSupport formFeedText = .ok code ∧
    ∃ definition services, Generated defaultSupport formFeedText code definition services ∧
      ¬ List.Forall₂ (fun impl service => ∀ method ∈ impl.methods, method.body ≠ "" →
        Retained method.body (writtenBody service.text method.name)) definition.impls services := by
  have hparse : (parse formFeedText).map (fun definition => (definition.services.isOk,
      definition.impls.flatMap (·.methods.map (·.body)))) =
        .ok (true, ["return \"a\x0cb\""]) := by decide +kernel
  obtain ⟨code, hcode, hbodies⟩ := exists_generate_eq_ok hparse
  obtain ⟨definition, services, hgenerated⟩ := generate_eq_ok_iff.mp hcode
  refine ⟨code, hcode, definition, services, hgenerated, fun hretained => ?_⟩
  have hiff := hgenerated.forall₂ (P := fun impl service => ∀ method ∈ impl.methods,
      method.body ≠ "" → (Retained method.body (writtenBody service.text method.name) ↔
        ∀ c ∈ method.body.toList, isBoundary c = true → c = '\n'))
    fun impl _ service himpl hnames hservice method =>
      ImplDef.retained_writtenBody_iff himpl hnames hservice
  have hplain : ∀ impl ∈ definition.impls, ∀ method ∈ impl.methods, method.body ≠ "" →
      ∀ c ∈ method.body.toList, isBoundary c = true → c = '\n' := by
    refine forall_mem_of_forall₂ (hiff.mp ?_ hretained)
    intro impl service hiff hmethods method hmem hne
    exact (hiff method hmem hne).mp (hmethods method hmem hne)
  obtain ⟨impl, himpl, method, hmethod, hbody⟩ :=
    (methods_of_flatMap_eq (hbodies definition services hgenerated)).2
  have hfeed := hplain impl himpl method hmethod
  rw [hbody] at hfeed
  exact absurd (hfeed (by decide) '\x0c' (by decide) (by decide)) (by decide)

end Interpose
