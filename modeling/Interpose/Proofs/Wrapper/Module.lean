import Interpose.Generate
import Interpose.Proofs.Definition.Reserved
import Interpose.Proofs.Definition.RoundTrip
import Interpose.Proofs.Wrapper.Layout
import Mathlib.Data.List.Perm.Basic

/-!
# Generated modules

A definition file that is accepted becomes a module with the imports of the file, two imports of the
support package, and the texts of its services one after the other. The names that the module binds
besides those of the file's imports are two aliases and the names of its classes. They are distinct
unless a block takes an alias for its name, or the name of another block's wrapper.
-/

namespace Interpose

open Source Text

/-! ## Files and their modules -/

/-- The lines of a module before its imports of the support package. -/
def copiedLines (imports : List Import) : List String :=
  ["\"\"\"Generated middleware wrappers.\"\"\"", "", "from __future__ import annotations", ""] ++
  imports.map (·.text) ++ (if imports.isEmpty then [] else [""])

/-- The lines with which a module imports from its support package. -/
def supportLines (support : String) : List String :=
  ["from " ++ support ++ " import Result as _Result",
   "from " ++ support ++ " import into_status as _into_status"]

/-- A definition file and the module that it becomes: each of its blocks is a service, and the
module holds its imports, those of the support package, and the texts of its services. -/
structure Generated (support text code : String) (definition : Definition String)
    (services : List Service) : Prop where
  /-- The file stands for the definition. -/
  parsed : parse text = .ok definition
  /-- Its blocks are the services. -/
  built : List.Forall₂ (fun impl service => impl.service = .ok service) definition.impls services
  /-- The module is written from its imports and the services. -/
  written : code = textOfLines (copiedLines definition.imports ++ supportLines support) ++
    String.join (services.map Service.text)

/-- A text becomes a module exactly when it stands for a definition whose blocks are services. -/
theorem generate_eq_ok_iff {support text code : String} : generate support text = .ok code ↔
    ∃ definition services, Generated support text code definition services := by
  have hwritten : ∀ (imports : List Import) (services : List Service),
      moduleText support imports services = textOfLines (copiedLines imports ++
        supportLines support) ++ String.join (services.map Service.text) := by
    intro imports services
    rw [moduleText, textOfLines_append, join_text]
    rfl
  constructor
  · intro h
    obtain ⟨file, hfile, hcode⟩ := map_eq_ok_iff.mp h
    obtain ⟨definition, hparse, hfile⟩ := bind_eq_ok_iff.mp hfile
    obtain ⟨services, hservices, hfile⟩ := bind_eq_ok_iff.mp hfile
    refine ⟨definition, services, hparse, mapM_eq_ok_iff.mp hservices, ?_⟩
    rw [← hcode, ← Except.ok.inj hfile, ← hwritten]
    rfl
  · rintro ⟨definition, services, hparse, hservices, hcode⟩
    refine map_eq_ok_iff.mpr ⟨⟨definition.imports, services⟩, ?_, hcode ▸ hwritten _ _⟩
    refine bind_eq_ok_iff.mpr ⟨definition, hparse, bind_eq_ok_iff.mpr ⟨services, ?_, rfl⟩⟩
    exact mapM_eq_ok_iff.mpr hservices

section

variable {support text code : String} {definition : Definition String} {services : List Service}

/-- What holds of every block that can be written with distinct methods holds of the blocks of a
file. -/
theorem Generated.forall₂ (h : Generated support text code definition services)
    {P : ImplDef String → Service → Prop}
    (hP : ∀ impl ∈ definition.impls, ∀ service, impl.WellFormed IsClean →
      (impl.methods.map (·.name)).Nodup → impl.service = .ok service → P impl service) :
    List.Forall₂ P definition.impls services := by
  have hformed := wellFormed_of_parse h.parsed
  refine forall₂_of_mem h.built fun impl himpl service hservice => ?_
  exact hP impl himpl service (hformed.impls impl himpl) (hformed.names.methods impl himpl) hservice

end

/-- A text whose definition has services becomes a module, and what is found in the definition is
found in that of the module. -/
theorem exists_generate_eq_ok {support text : String} {α : Type} {f : Definition String → α} {a : α}
    (h : (parse text).map (fun definition => (definition.services.isOk, f definition)) =
      .ok (true, a)) :
    ∃ code, generate support text = .ok code ∧ ∀ definition services,
      Generated support text code definition services → f definition = a := by
  obtain ⟨definition, hparse, hfound⟩ := map_eq_ok_iff.mp h
  obtain ⟨hok, hfound⟩ := Prod.mk.inj hfound
  obtain ⟨services, hservices⟩ := exists_eq_ok_of_isOk hok
  have hgenerated : Generated support text _ definition services :=
    ⟨hparse, mapM_eq_ok_iff.mp hservices, rfl⟩
  refine ⟨_, generate_eq_ok_iff.mpr ⟨definition, services, hgenerated⟩, fun other _ hother => ?_⟩
  obtain rfl : definition = other := Except.ok.inj (hparse.symm.trans hother.parsed)
  exact hfound

/-- A text with one block that has one method. -/
def singleText (name params body : String) : String :=
  "@middleware_service(Shop, serve) impl A \x7b rpc " ++ name ++ "(" ++ params ++
    ") -> Result[P, E] \x60\x60\x60" ++ body ++ "\x60\x60\x60 \x7d"

/-- What is found once in the methods of some blocks is found in each of their methods. -/
theorem methods_of_flatMap_eq {α : Type} {f : MethodDef String → α} {impls : List (ImplDef String)}
    {a : α} (h : impls.flatMap (·.methods.map f) = [a]) :
    (∀ impl ∈ impls, ∀ method ∈ impl.methods, f method = a) ∧
      ∃ impl ∈ impls, ∃ method ∈ impl.methods, f method = a := by
  constructor
  · intro impl himpl method hmem
    have hfound : f method ∈ impls.flatMap (·.methods.map f) :=
      List.mem_flatMap.mpr ⟨impl, himpl, List.mem_map_of_mem hmem⟩
    rwa [h, List.mem_singleton] at hfound
  · have hfound : a ∈ impls.flatMap (·.methods.map f) := by
      rw [h]
      exact List.mem_singleton_self a
    obtain ⟨impl, himpl, hmem⟩ := List.mem_flatMap.mp hfound
    obtain ⟨method, hmethod, hmem⟩ := List.mem_map.mp hmem
    exact ⟨impl, himpl, method, hmethod, hmem⟩

/-! ## Names in lines -/

/-- The name that stands in a line behind a front. -/
def nameAfter (front line : String) : String :=
  String.ofList ((line.toList.drop front.toList.length).takeWhile isNameRest)

/-- The word that a line ends in. -/
def lastWord (line : String) : String :=
  String.ofList (line.toList.reverse.takeWhile (· ≠ ' ')).reverse

theorem nameAfter_eq (front : String) {name rest : String} (hname : name.toList.all isNameRest)
    (hrest : ∀ c ∈ rest.toList.head?, isNameRest c = false) :
    nameAfter front (front ++ name ++ rest) = name := by
  have hdrop : (front ++ name ++ rest).toList.drop front.toList.length =
      name.toList ++ rest.toList := by
    rw [String.toList_append, String.toList_append, List.append_assoc, List.drop_left]
  rw [nameAfter, hdrop, takeWhile_append_of_head hname hrest, String.ofList_toList]

theorem lastWord_eq {line word : String} (hword : ' ' ∉ word.toList) {front : List Char}
    (hline : line.toList = front ++ ' ' :: word.toList) : lastWord line = word := by
  have hblank : word.toList.reverse.all (· ≠ ' ') = true := by
    refine List.all_eq_true.mpr fun c hmem => ?_
    simpa using ne_of_mem_of_not_mem (List.mem_reverse.mp hmem) hword
  rw [lastWord, hline, List.reverse_append, List.reverse_cons, List.append_assoc,
    takeWhile_append_of_head hblank (by simp), List.reverse_reverse, String.ofList_toList]

/-- The letters of a name can all stand inside names. -/
theorem all_isNameRest_of_isName {name : String} (h : isName name.toList) :
    name.toList.all isNameRest = true :=
  List.all_eq_true.mpr fun _ hmem => isNameRest_of_isName h hmem

/-! ## The names that a module binds -/

/-- The names of the classes that a text opens. -/
def classNames (text : String) : List String :=
  ((linesOf text).filter (begins "class ")).map (nameAfter "class ")

/-- The names that a module binds besides those of its file's imports: the ones under which it
imports from the support package, and those of its classes. -/
def ownNames (support : String) (services : List Service) : List String :=
  (supportLines support).map lastWord ++ classNames (String.join (services.map Service.text))

theorem map_lastWord_supportLines (support : String) :
    (supportLines support).map lastWord = ["_Result", "_into_status"] := by
  have hresult : ("from " ++ support ++ " import Result as _Result").toList =
      ("from " ++ support ++ " import Result as").toList ++ ' ' :: "_Result".toList := by simp
  have hstatus : ("from " ++ support ++ " import into_status as _into_status").toList =
      ("from " ++ support ++ " import into_status as").toList ++ ' ' :: "_into_status".toList := by
    simp
  rw [supportLines, List.map_cons, List.map_cons, List.map_nil, lastWord_eq (by decide) hresult,
    lastWord_eq (by decide) hstatus]

/-- The lines of some services' texts that open classes are those of each of them. -/
theorem filter_linesOf_join (services : List Service) :
    (linesOf (String.join (services.map Service.text))).filter (begins "class ") =
      services.flatMap fun service => (linesOf service.text).filter (begins "class ") := by
  have hempty : [""].filter (begins "class ") = [] := by decide
  have htext : ∀ lines : List String, (linesOf (textOfLines lines)).filter (begins "class ") =
      (lines.flatMap linesOf).filter (begins "class ") := by
    intro lines
    rw [linesOf_textOfLines, List.filter_append, hempty, List.append_nil]
  rw [join_text, htext, List.flatMap_assoc, List.filter_flatMap]
  exact List.flatMap_congr fun service _ => (htext service.lines).symm

theorem all_isNameRest_wrapperName {name : String} (h : isName name.toList) :
    (wrapperName name).toList.all isNameRest = true := by
  rw [wrapperName, String.toList_append, List.all_append, all_isNameRest_of_isName h]
  decide

/-- The text of a service opens the classes of its wrapper and of its implementor. -/
theorem Service.Lined.classNames_text {service : Service} (h : service.Lined)
    (hname : isName service.implementor.toList) :
    classNames service.text = [wrapperName service.implementor, service.implementor] := by
  have hwrapper : nameAfter "class " service.wrapper.title = wrapperName service.implementor := by
    have htitle : service.wrapper.title = "class " ++ wrapperName service.implementor ++
        ("(" ++ service.endpoint.interface ++ "):") := by
      rw [← String.append_assoc, ← String.append_assoc]
      rfl
    rw [htitle]
    refine nameAfter_eq _ (all_isNameRest_wrapperName hname) fun c hc => ?_
    obtain rfl : '(' = c := by simpa using hc
    decide
  have himplementor : nameAfter "class " service.implementorClass.title = service.implementor := by
    have htitle : service.implementorClass.title = "class " ++ service.implementor ++
        (basesText (service.bases.map TypeExpr.canonical) ++ ":") := by
      rw [← String.append_assoc]
      rfl
    have hbases : ∀ c ∈ (basesText (service.bases.map TypeExpr.canonical) ++ ":").toList.head?,
        isNameRest c = false := by
      unfold basesText
      split
      · intro c hc
        obtain rfl : ':' = c := by simpa using hc
        decide
      · intro c hc
        obtain rfl : '(' = c := by simpa using hc
        decide
    rw [htitle]
    exact nameAfter_eq _ (all_isNameRest_of_isName hname) hbases
  rw [classNames, h.filter_linesOf_text, List.map_cons, List.map_cons, hwrapper, himplementor,
    List.map_nil]

section

variable {support text code : String} {definition : Definition String} {services : List Service}

/-- A module binds the two aliases of its support package, and two names for each block. -/
theorem Generated.ownNames_eq (h : Generated support text code definition services) :
    ownNames support services = ["_Result", "_into_status"] ++
      (definition.impls.map (·.name)).flatMap fun name => [wrapperName name, name] := by
  have hclasses : List.Forall₂ (fun impl service => classNames service.text =
      [wrapperName impl.name, impl.name]) definition.impls services := by
    refine h.forall₂ fun impl _ service himpl _ hservice => ?_
    have hname := (ImplDef.service_eq_ok hservice).1
    rw [(ImplDef.lined_of_service himpl hservice).classNames_text (hname ▸ himpl.name), hname]
  have hjoin : classNames (String.join (services.map Service.text)) =
      services.flatMap fun service => classNames service.text := by
    rw [classNames, filter_linesOf_join, List.map_flatMap]
    rfl
  rw [ownNames, map_lastWord_supportLines, hjoin, flatMap_eq_of_forall₂ hclasses, List.flatMap_map]

end

theorem wrapperName_injective : Function.Injective wrapperName := by
  intro a b h
  have hlists := congrArg String.toList h
  rw [wrapperName, wrapperName, String.toList_append, String.toList_append,
    List.append_cancel_right_eq] at hlists
  exact String.toList_inj.mp hlists

/-- A name that is shorter than what the names of wrappers end in is none of them. -/
theorem ne_wrapperName_of_length {name : String} (h : name.length < 17) (implementor : String) :
    name ≠ wrapperName implementor := by
  rintro rfl
  rw [wrapperName, String.length_append] at h
  have hlength : "MiddlewareWrapper".length = 17 := rfl
  omega

/-- The names of some classes and of their wrappers are distinct when those of the classes are and
none of them is the name of a wrapper. -/
theorem nodup_flatMap_wrapperName_iff {names : List String} (h : names.Nodup) :
    (names.flatMap fun name => [wrapperName name, name]).Nodup ↔
      ∀ name ∈ names, ∀ other ∈ names, name ≠ wrapperName other := by
  have hperm : (names.map wrapperName ++ names).Perm
      (names.flatMap fun name => [wrapperName name, name]) := by
    have happend := List.flatMap_append_perm names (fun name => [wrapperName name]) ([·])
    rwa [← List.map_eq_flatMap, List.flatMap_singleton'] at happend
  have hwrappers : (names.map wrapperName).Nodup := h.map wrapperName_injective
  rw [← hperm.nodup_iff, List.nodup_append]
  constructor
  · rintro ⟨_, _, hclash⟩ name hmem other hother
    exact (hclash (wrapperName other) (List.mem_map_of_mem hother) name hmem).symm
  · intro hfree
    refine ⟨hwrappers, h, fun wrapper hwrapper name hmem => ?_⟩
    obtain ⟨other, hother, rfl⟩ := List.mem_map.mp hwrapper
    exact (hfree name hmem other hother).symm

/-- A short name is found among classes and their wrappers when it is the name of a class. -/
theorem mem_flatMap_wrapperName_iff {name : String} (h : name.length < 17) (names : List String) :
    name ∈ names.flatMap (fun other => [wrapperName other, other]) ↔ name ∈ names := by
  simp [ne_wrapperName_of_length h]

/-- The names that the module of a file binds besides those of the file's imports are two aliases
and, for each block, the names of its wrapper and of its implementing class. They are distinct
exactly when no block takes an alias for its name, or the name of a wrapper. -/
theorem nodup_ownNames_iff {support text code : String} (h : generate support text = .ok code) :
    ∃ definition services, Generated support text code definition services ∧
      ownNames support services = ["_Result", "_into_status"] ++
        definition.impls.flatMap (fun impl => [wrapperName impl.name, impl.name]) ∧
      ((ownNames support services).Nodup ↔ ∀ impl ∈ definition.impls, impl.name ≠ "_Result" ∧
        impl.name ≠ "_into_status" ∧
        ∀ other ∈ definition.impls, impl.name ≠ wrapperName other.name) := by
  obtain ⟨definition, services, hgenerated⟩ := generate_eq_ok_iff.mp h
  have hnames := hgenerated.ownNames_eq
  have hdistinct : (definition.impls.map (·.name)).Nodup :=
    (wellFormed_of_parse hgenerated.parsed).names.distinct
  refine ⟨definition, services, hgenerated, hnames.trans (by rw [List.flatMap_map]), ?_⟩
  rw [hnames, List.cons_append, List.cons_append, List.nil_append, List.nodup_cons,
    List.nodup_cons, List.mem_cons, mem_flatMap_wrapperName_iff (by decide),
    mem_flatMap_wrapperName_iff (by decide), nodup_flatMap_wrapperName_iff hdistinct]
  simp only [List.forall_mem_map]
  constructor
  · rintro ⟨hresult, hstatus, hfree⟩ impl himpl
    refine ⟨?_, ?_, hfree impl himpl⟩
    · intro hname
      exact hresult (.inr (hname ▸ List.mem_map_of_mem himpl))
    · intro hname
      exact hstatus (hname ▸ List.mem_map_of_mem himpl)
  · intro hfree
    refine ⟨?_, ?_, fun impl himpl => (hfree impl himpl).2.2⟩
    · rintro (halias | hmem)
      · exact absurd halias (by decide)
      · obtain ⟨impl, himpl, hname⟩ := List.mem_map.mp hmem
        exact (hfree impl himpl).1 hname
    · intro hmem
      obtain ⟨impl, himpl, hname⟩ := List.mem_map.mp hmem
      exact (hfree impl himpl).2.1 hname

/-- A text with two blocks without methods. -/
def pairText (second : String) : String :=
  "@middleware_service(Shop, serve) impl A \x7b \x7d " ++
    "@middleware_service(Shop, serve) impl " ++ second ++ " \x7b \x7d"

/-- Two blocks with unrelated names give four classes. -/
theorem nodup_ownNames_pair : ∃ code, generate defaultSupport (pairText "B") = .ok code ∧
    ∃ definition services, Generated defaultSupport (pairText "B") code definition services ∧
      (ownNames defaultSupport services).Nodup := by
  have hparse : (parse (pairText "B")).map (fun definition =>
      (definition.services.isOk, definition.impls.map (·.name))) = .ok (true, ["A", "B"]) := by
    decide +kernel
  obtain ⟨code, hcode, hnames⟩ := exists_generate_eq_ok hparse
  obtain ⟨definition, services, hgenerated, _, hnodup⟩ := nodup_ownNames_iff hcode
  have hfree : ∀ name ∈ definition.impls.map (·.name), name ≠ "_Result" ∧ name ≠ "_into_status" ∧
      ∀ other ∈ definition.impls.map (·.name), name ≠ wrapperName other := by
    rw [hnames definition services hgenerated]
    decide
  simp only [List.forall_mem_map] at hfree
  exact ⟨code, hcode, definition, services, hgenerated, hnodup.mpr hfree⟩

/-- A block that is named as the wrapper of another one is accepted. Its class takes the place of
that wrapper. -/
theorem not_nodup_ownNames : ∃ code, generate defaultSupport (pairText "AMiddlewareWrapper") =
      .ok code ∧
    ∃ definition services,
      Generated defaultSupport (pairText "AMiddlewareWrapper") code definition services ∧
      ¬ (ownNames defaultSupport services).Nodup := by
  have hparse : (parse (pairText "AMiddlewareWrapper")).map (fun definition =>
      (definition.services.isOk, definition.impls.map (·.name))) =
        .ok (true, ["A", "AMiddlewareWrapper"]) := by decide +kernel
  obtain ⟨code, hcode, hnames⟩ := exists_generate_eq_ok hparse
  obtain ⟨definition, services, hgenerated⟩ := generate_eq_ok_iff.mp hcode
  refine ⟨code, hcode, definition, services, hgenerated, ?_⟩
  rw [hgenerated.ownNames_eq, hnames definition services hgenerated]
  decide

end Interpose
