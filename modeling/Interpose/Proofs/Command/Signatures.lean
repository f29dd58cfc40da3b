import Interpose.Proofs.Command.Generating
import Interpose.Proofs.Command.Shown
import Interpose.Proofs.Wrapper.Wiring

/-!
# Shown signatures

The types of a method are shown in the two summaries of its service and in the two classes of the
generated module, by their texts and next to marks. So each of these places determines the types
that it shows, but for their spans. A console may be too narrow for the table of methods. Its cells
are cut then, and different types may look the same.
-/

namespace Interpose

open Command Source Text

/-- A method whose names, and the names in whose types, hold no marks. -/
structure Rpc.Unmarked (rpc : Rpc) : Prop where
  name : IsUnmarkedName rpc.name
  request : rpc.request.Unmarked
  response : rpc.response.Unmarked
  error : rpc.error.Unmarked
  params : ∀ param ∈ rpc.params, param.Unmarked

/-- Two methods whose types agree, but for their spans, wherever they are shown alike. -/
structure Rpc.ToldApart (rpc other : Rpc) : Prop where
  /-- In the JSON of a summary. -/
  json : ∀ style, (methodJson rpc).render style = (methodJson other).render style →
    rpc.request.erase = other.request.erase ∧ rpc.response.erase = other.response.erase ∧
      rpc.error.erase = other.error.erase
  /-- In tables of methods that are not narrowed, however wide their columns are. -/
  table : ∀ methods others, methodLine methods rpc = methodLine others other →
    rpc.name = other.name ∧ rpc.request.erase = other.request.erase ∧
      rpc.response.erase = other.response.erase
  /-- In the lines that open the methods of wrappers. -/
  wrapper : rpc.wrapperMethod.title = other.wrapperMethod.title →
    rpc.name = other.name ∧ rpc.request.erase = other.request.erase ∧
      rpc.response.erase = other.response.erase
  /-- In the lines that open bodies. -/
  body : rpc.heldBody.title = other.heldBody.title →
    rpc.name = other.name ∧ rpc.params.map Param.erase = other.params.map Param.erase ∧
      rpc.response.erase = other.response.erase

/-- The places where the signature of a method is shown. -/
structure Service.Shows (service : Service) (rpc : Rpc) : Prop where
  /-- The JSON of the service holds it under the name of the method. -/
  json : ((serviceJson service).field? "methods").bind (·.field? rpc.name) = some (methodJson rpc)
  /-- In a console that is wide enough, the table of the service has a line for it. -/
  table : ∀ console, TableFits console service.methods →
    methodLine service.methods rpc ∈ serviceLines console service
  /-- The method of the wrapper is opened by one. -/
  wrapper : (firstClass service.text).find? (begins ("    async def " ++ rpc.name ++ "(")) =
    some rpc.wrapperMethod.title
  /-- So is the body. -/
  body : rpc.heldBody.title ∈ (secondClass service.text).filter (begins "    async def ")

/-! ## Reading types off -/

/-- The text of a type begins with a character that is no blank. -/
theorem TypeExpr.Unmarked.exists_cons {type : TypeExpr} (h : type.Unmarked) :
    ∃ c cs, type.canonical.toList = c :: cs ∧ c ≠ ' ' := by
  cases h with
  | @mk name args span hname _ =>
    obtain ⟨c, cs, htext, hc⟩ := hname.exists_cons
    refine ⟨c, cs ++ TypeExpr.brackets args, ?_, ?_⟩
    · rw [TypeExpr.toList_canonical, htext, List.cons_append]
    · rintro rfl
      cases hc

/-- A type can be read off what stands behind any number of blanks. -/
theorem TypeExpr.Unmarked.blanks_inj {type other : TypeExpr} (h : type.Unmarked)
    (hother : other.Unmarked) {count number : Nat} {rest more : List Char} (hrest : StopsType rest)
    (hmore : StopsType more)
    (heq : List.replicate count ' ' ++ (type.canonical.toList ++ rest) =
      List.replicate number ' ' ++ (other.canonical.toList ++ more)) :
    type.erase = other.erase ∧ rest = more := by
  have hdrop : ∀ {type : TypeExpr}, type.Unmarked → ∀ (count : Nat) (rest : List Char),
      (List.replicate count ' ' ++ (type.canonical.toList ++ rest)).dropWhile (· = ' ') =
        type.canonical.toList ++ rest := by
    intro type htype count rest
    obtain ⟨c, cs, htext, hc⟩ := htype.exists_cons
    refine dropWhile_append_of_head ?_ ?_
    · simp
    · simp [htext, hc]
  have hafter := congrArg (List.dropWhile (· = ' ')) heq
  rw [hdrop h, hdrop hother] at hafter
  exact h.readOff other hother rest more hrest hmore hafter

/-- A type ends where blanks follow. -/
theorem stopsType_replicate (count : Nat) (rest : List Char) :
    StopsType (List.replicate (count + 1) ' ' ++ rest) := by
  rw [List.replicate_succ, List.cons_append]
  exact stopsType_cons (by decide) _

/-- A mark at the front of a text stops the types before it. -/
theorem stopsType_toList {text : String} {c : Char} (htext : text.toList.head? = some c)
    (h : isMark c = true ∧ c ≠ '[') (rest : List Char) : StopsType (text.toList ++ rest) := by
  intro d hd
  rw [List.head?_append, htext] at hd
  obtain rfl := Option.some.inj hd
  exact h

/-- A type can be read off the end of a line that opens a method. -/
theorem TypeExpr.Unmarked.colon_inj {type other : TypeExpr} (h : type.Unmarked)
    (hother : other.Unmarked)
    (heq : type.canonical.toList ++ ":".toList = other.canonical.toList ++ ":".toList) :
    type.erase = other.erase := by
  rw [List.append_cancel_right_eq, String.toList_inj] at heq
  exact (h.canonical_eq_iff hother).mp heq

/-- The name of a body holds no marks. -/
theorem IsUnmarkedName.bodyName {name : String} (h : IsUnmarkedName name) :
    IsUnmarkedName (bodyName name) := by
  rw [isUnmarkedName_iff] at h ⊢
  simp only [Interpose.bodyName, String.toList_append, List.all_append, h.2]
  exact ⟨by simp, by decide⟩

namespace Rpc.Unmarked

variable {rpc other : Rpc} (h : rpc.Unmarked) (hother : other.Unmarked)
include h hother

/-- The JSON of a method determines the types of its signature. -/
theorem of_methodJson {style : Json.Style}
    (heq : (methodJson rpc).render style = (methodJson other).render style) :
    rpc.request.erase = other.request.erase ∧ rpc.response.erase = other.response.erase ∧
      rpc.error.erase = other.error.erase := by
  have hjson := Json.render_injective style heq
  simp only [methodJson, Json.obj.injEq, List.cons.injEq, Prod.mk.injEq, Json.str.injEq] at hjson
  exact ⟨(h.request.canonical_eq_iff hother.request).mp hjson.1.2,
    (h.response.canonical_eq_iff hother.response).mp hjson.2.1.2,
    (h.error.canonical_eq_iff hother.error).mp hjson.2.2.1.2⟩

/-- A line in a table of methods determines the types that it shows. -/
theorem of_methodLine {methods others : List Rpc}
    (heq : methodLine methods rpc = methodLine others other) :
    rpc.name = other.name ∧ rpc.request.erase = other.request.erase ∧
      rpc.response.erase = other.response.erase := by
  obtain ⟨_, _, _, _, hline⟩ := exists_toList_methodLine methods rpc
  obtain ⟨_, _, _, _, hotherLine⟩ := exists_toList_methodLine others other
  rw [← String.toList_inj, hline, hotherLine] at heq
  obtain ⟨hname, hafter⟩ := h.name.append_inj hother.name (stopsType_replicate _ _).endsAtMark
    (stopsType_replicate _ _).endsAtMark heq
  obtain ⟨hrequest, hafter⟩ := h.request.blanks_inj hother.request (stopsType_replicate _ _)
    (stopsType_replicate _ _) hafter
  obtain ⟨hresponse, _⟩ := h.response.blanks_inj hother.response (stopsType_replicate _ _)
    (stopsType_replicate _ _) hafter
  exact ⟨hname, hrequest, hresponse⟩

/-- The title of a wrapper's method determines the types that it shows. -/
theorem of_wrapperMethod (heq : rpc.wrapperMethod.title = other.wrapperMethod.title) :
    rpc.name = other.name ∧ rpc.request.erase = other.request.erase ∧
      rpc.response.erase = other.response.erase := by
  have htitle := congrArg String.toList heq
  unfold WrapperMethod.title Rpc.wrapperMethod at htitle
  simp only [String.toList_append, List.append_assoc, List.append_cancel_left_eq] at htitle
  have hopen : ∀ rest, StopsType ("(self, request: ".toList ++ rest) :=
    stopsType_toList (c := '(') (by simp) (by decide)
  have hclose : ∀ rest, StopsType (") -> ".toList ++ rest) :=
    stopsType_toList (c := ')') (by simp) (by decide)
  obtain ⟨hname, hafter⟩ := h.name.append_inj hother.name (hopen _).endsAtMark
    (hopen _).endsAtMark htitle
  obtain ⟨hrequest, hafter⟩ := h.request.readOff other.request hother.request _ _ (hclose _)
    (hclose _) (List.append_cancel_left hafter)
  exact ⟨hname, hrequest, h.response.colon_inj hother.response (List.append_cancel_left hafter)⟩

/-- The title of a body determines the types that it shows. -/
theorem of_heldBody (heq : rpc.heldBody.title = other.heldBody.title) :
    rpc.name = other.name ∧ rpc.params.map Param.erase = other.params.map Param.erase ∧
      rpc.response.erase = other.response.erase := by
  have htitle := congrArg String.toList heq
  unfold HeldBody.title Rpc.heldBody at htitle
  simp only [String.toList_append, List.append_assoc, List.append_cancel_left_eq] at htitle
  have hopen : ∀ rest, StopsType ("(".toList ++ rest) :=
    stopsType_toList (c := '(') (by simp) (by decide)
  have hclose : ∀ rest, ") -> ".toList ++ rest = ')' :: (" -> ".toList ++ rest) := by simp
  obtain ⟨hname, hafter⟩ := h.name.bodyName.append_inj hother.name.bodyName (hopen _).endsAtMark
    (hopen _).endsAtMark htitle
  rw [List.append_cancel_left_eq, hclose, hclose] at hafter
  obtain ⟨hparams, hafter⟩ := Param.list_inj h.params hother.params hafter
  exact ⟨bodyName_injective hname, hparams,
    h.response.colon_inj hother.response (List.append_cancel_left hafter)⟩

/-- Two methods with unmarked types are told apart by all that is shown of them. -/
theorem toldApart : rpc.ToldApart other where
  json _ := h.of_methodJson hother
  table _ _ := h.of_methodLine hother
  wrapper := h.of_wrapperMethod hother
  body := h.of_heldBody hother

end Rpc.Unmarked

/-! ## Accepted methods -/

/-- A well-formed parameter has unmarked names. -/
theorem Param.WellFormed.unmarked {param : Param} (h : param.WellFormed) : param.Unmarked where
  name := isUnmarkedName_of_isName h.name
  type type htype := (h.type type htype).unmarked

section

variable {impl : ImplDef String} (himpl : impl.WellFormed IsClean) {service : Service}
  (h : impl.service = .ok service) {rpc : Rpc} (hmem : rpc ∈ service.methods)
include himpl h hmem

/-- The names of accepted methods and of their types hold no marks. -/
theorem ImplDef.unmarked_of_service : rpc.Unmarked := by
  have hnamed := wellNamed_of_service himpl h rpc hmem
  obtain ⟨method, hmethod, unresolved, indices, hrpc, rfl⟩ := exists_rpc_of_service h hmem
  have hformed := himpl.methods method hmethod
  have hkeeps := MethodDef.keeps_of_rpc hrpc
  refine ⟨hkeeps.name ▸ isUnmarkedName_of_isName hformed.name, hnamed.request.unmarked,
    hnamed.response.unmarked, hnamed.error.unmarked, fun param hparam => ?_⟩
  exact (hformed.params param (hkeeps.params ▸ hparam)).unmarked

/-- A service shows the signatures of its methods. -/
theorem ImplDef.shows_of_service (hnames : (impl.methods.map (·.name)).Nodup) :
    service.Shows rpc := by
  have hlined := lined_of_service himpl h
  rw [← names_of_service h] at hnames
  have hshown := shownInLine_of_service himpl h hmem
  refine ⟨?_, fun _ => methodLine_mem_serviceLines hmem hshown,
    hlined.title_firstClass hnames hmem, ?_⟩
  · have hmethods : (serviceJson service).field? "methods" =
        some (.obj (service.methods.map fun rpc => (rpc.name, methodJson rpc))) := by
      simp [serviceJson, Json.field?_cons]
    rw [hmethods, Option.bind_some]
    apply Json.field?_of_mem
    · rwa [List.map_map]
    · exact List.mem_map_of_mem hmem
  · rw [hlined.bodies_secondClass]
    exact List.mem_map_of_mem hmem

end

/-- Types whose names are dotted, and all others whose names hold no marks, have one text exactly
when they agree but for their spans. So methods agree in their types wherever these are shown alike.
The methods of every parsed block are among them; they have the declared types, which are shown in
all these places, and in the table of the service wherever it fits into the console. -/
theorem signatures_told_apart :
    (∀ type : TypeExpr, type.WellNamed → type.Unmarked) ∧
    (∀ type other : TypeExpr, type.Unmarked → other.Unmarked →
      (type.canonical = other.canonical ↔ type.erase = other.erase)) ∧
    (∀ rpc other : Rpc, rpc.Unmarked → other.Unmarked → rpc.ToldApart other) ∧
    ∀ text definition, parse text = .ok definition → ∀ impl ∈ definition.impls,
      ∀ service, impl.service = .ok service →
        List.Forall₂ MethodDef.Signs impl.methods service.methods ∧
        ∀ rpc ∈ service.methods, rpc.Unmarked ∧ service.Shows rpc := by
  refine ⟨fun _ h => h.unmarked, fun _ _ h hother => h.canonical_eq_iff hother,
    fun _ _ h hother => h.toldApart hother, ?_⟩
  intro text definition hparse impl himpl service hservice
  have hformed := wellFormed_of_parse hparse
  have hsigns := (ImplDef.becomes_of_service hservice).imp fun _ _ hmethod => hmethod.signs
  refine ⟨hsigns, fun rpc hrpc => ⟨?_, ?_⟩⟩
  · exact ImplDef.unmarked_of_service (hformed.impls impl himpl) hservice hrpc
  · exact ImplDef.shows_of_service (hformed.impls impl himpl) hservice hrpc
      (hformed.names.methods impl himpl)

/-- A type with two arguments, the first of which has one. -/
def pairType : TypeExpr :=
  ⟨"Map", [⟨"t.List", [⟨"Key", [], .none⟩], .none⟩, ⟨"Value", [], ⟨some 1, some 2⟩⟩], .none⟩

/-- A type with one argument that has two. -/
def listType : TypeExpr :=
  ⟨"Map", [⟨"t.List", [⟨"Key", [], .none⟩, ⟨"Value", [], ⟨some 1, some 2⟩⟩], .none⟩], .none⟩

/-- Where a bracket closes is seen in the text. -/
theorem signatures_told_apart_nested :
    pairType.Unmarked ∧ listType.Unmarked ∧ pairType.canonical ≠ listType.canonical := by
  have hkey : TypeExpr.Unmarked ⟨"Key", [], .none⟩ := .mk (by decide) (by simp)
  have hvalue : TypeExpr.Unmarked ⟨"Value", [], ⟨some 1, some 2⟩⟩ := .mk (by decide) (by simp)
  have hpair : pairType.Unmarked := by
    refine .mk (by decide) (List.forall_mem_cons.mpr ⟨.mk (by decide) ?_, ?_⟩)
    · exact List.forall_mem_singleton.mpr hkey
    · exact List.forall_mem_singleton.mpr hvalue
  have hlist : listType.Unmarked := by
    refine .mk (by decide) (List.forall_mem_singleton.mpr (.mk (by decide) ?_))
    exact List.forall_mem_cons.mpr ⟨hkey, List.forall_mem_singleton.mpr hvalue⟩
  refine ⟨hpair, hlist, fun htext => ?_⟩
  have herase := (signatures_told_apart.2.1 _ _ hpair hlist).mp htext
  revert herase
  decide

/-! ## Narrow consoles -/

/-- A long name with some end. -/
def longName (last : Char) : List Char := List.replicate 60 'R' ++ [last]

/-- The characters of a text with one method, whose request has a type of that name. -/
def longText (last : Char) : List Char :=
  "@middleware_service(Shop, serve) impl Store \x7b rpc buy(self, env, request: ".toList ++
    longName last ++ ") -> Result[Out, Bad] \x60\x60\x60pass\x60\x60\x60 \x7d".toList

/-- A tree with a file that holds the text. -/
def longTree (last : Char) : Tree :=
  .ofFiles [(["in"], encodeOctets (String.ofList (longText last)))]

/-- The method of the text. -/
def longRpc (last : Char) : Rpc :=
  let request : TypeExpr := ⟨String.ofList (longName last), [], ⟨some 1, some 75⟩⟩
  ⟨"buy", request, ⟨"Out", [], ⟨some 1, some 148⟩⟩, ⟨"Bad", [], ⟨some 1, some 153⟩⟩, [], [],
    [⟨"self", none, ⟨some 1, some 55⟩⟩, ⟨"env", none, ⟨some 1, some 61⟩⟩,
      ⟨"request", some request, ⟨some 1, some 66⟩⟩], "pass", ⟨some 1, some 51⟩⟩

/-- The service of the text. -/
def longService (last : Char) : Service :=
  ⟨"Store", [], [longRpc last], [], ⟨"Shop", "serve"⟩⟩

section

variable {last other : Char} (hlast : isNameRest last = true) (hother : isNameRest other = true)
include hlast

/-- A long name consists of what a name goes on with. -/
theorem isNameRest_of_mem_longName :
    ∀ c ∈ (String.ofList (longName last)).toList, isNameRest c = true := by
  rw [String.toList_ofList]
  refine List.forall_mem_append.mpr ⟨fun c hc => ?_, List.forall_mem_singleton.mpr hlast⟩
  rw [List.eq_of_mem_replicate hc]
  decide

/-- Long names are printed. -/
theorem printed_longName : Printed (String.ofList (longName last)).toList :=
  fun c hc => printed_of_isNameRest (isNameRest_of_mem_longName hlast c hc)

/-- Long names are wide. -/
theorem width_longName : width (String.ofList (longName last)) = 61 := by
  rw [width, (printed_longName hlast).cells_eq, String.toList_ofList]
  rfl

/-- The column of requests is narrowed in a console with 80 columns. -/
theorem columnWidths_longRpc :
    columnWidths 80 methodsForm (methodRows [longRpc last]) = [6, 57, 10, 7] := by
  have hwidths : naturalWidths methodsForm (methodRows [longRpc last]) =
      [largest [width "Name", width "buy"] + 2,
       largest [width "Request", width (String.ofList (longName last))] + 2,
       largest [width "Response", width "Out"] + 2, largest [width "Hooks", width "-"] + 2] := rfl
  rw [columnWidths, hwidths, width_longName hlast]
  decide +kernel

/-- There, the name is cut in front of its end. -/
theorem cellLines_longName : cellLines methodsForm .left 57 (String.ofList (longName last)) =
    [List.replicate 54 'R' ++ ['…', ' ', ' ']] := by
  have hnames := isNameRest_of_mem_longName hlast
  rw [cellLines_of_word (printed_longName hlast)
    (fun c hc => isBlank_eq_false_of_isNameRest (hnames c hc))]
  · rw [String.toList_ofList]
    rfl
  · decide
  · rw [width_longName hlast]
    decide

include hother

/-- The lines of the method do not depend on the end of the name. -/
theorem rowLines_longRpc : rowLines methodsForm [6, 57, 10, 7] (methodCells (longRpc last)) =
    rowLines methodsForm [6, 57, 10, 7] (methodCells (longRpc other)) := by
  have hcells (last : Char) : methodCells (longRpc last) =
      ["buy", String.ofList (longName last), "Out", "-"] := rfl
  have hsides : methodsForm.sides = [.left, .left, .left, .left] := rfl
  rw [hcells, hcells, rowLines, rowLines, hsides]
  simp only [List.zip_cons_cons, List.map_cons, cellLines_longName hlast,
    cellLines_longName hother]

/-- The tables show one service, whatever the name ends in. -/
theorem summaryText_longService :
    summaryText 80 [longService last] = summaryText 80 [longService other] := by
  have htable : methodsTable 80 (longService last).methods =
      methodsTable 80 (longService other).methods := by
    change methodsTable 80 [longRpc last] = methodsTable 80 [longRpc other]
    rw [methodsTable, methodsTable, tableLines, tableLines, columnWidths_longRpc hlast,
      columnWidths_longRpc hother, methodRows, methodRows, List.flatMap_cons, List.flatMap_cons,
      List.map_singleton, List.map_singleton, List.flatMap_singleton, List.flatMap_singleton,
      rowLines_longRpc hlast hother]
  have hlines : serviceLines 80 (longService last) = serviceLines 80 (longService other) := by
    rw [serviceLines, serviceLines, htable]
    rfl
  simp only [summaryText, List.flatMap_cons, List.flatMap_nil, hlines, List.isEmpty_cons]

end

/-- The text is what the file of the tree holds. -/
theorem read_longTree (last : Char) :
    (longTree last).read "in" = .ok (encodeOctets (String.ofList (longText last))) := rfl

/-- The file holds the service. -/
theorem loadFile_longText {last : Char} (h : last = 'a' ∨ last = 'b') :
    loadFile "in" (encodeOctets (String.ofList (longText last))) =
      .ok ⟨[], [longService last]⟩ := by
  have hnewlines : String.ofList (unifyNewlines (String.ofList (longText last)).toList) =
      String.ofList (longText last) := by
    rw [String.toList_ofList]
    rcases h with rfl | rfl <;> rw [unifyNewlines_eq_self (by decide +kernel)]
  have hfile : ServiceFile.ofText (String.ofList (longText last)) =
      .ok ⟨[], [longService last]⟩ := by
    rw [ServiceFile.ofText, parse, String.toList_ofList]
    rcases h with rfl | rfl <;> decide +kernel
  refine loadFile_eq_ok_iff.mpr ⟨_, rfl, ?_⟩
  rw [hnewlines, hfile]

/-- The command reads what is shown from a file. -/
theorem runs_info_in : Command.info.Runs ["-iin"] ⟨[⟨inputOption, some "in"⟩], []⟩ :=
  ⟨by decide +kernel, rfl, rfl⟩

/-- In a console with 80 columns, two methods are shown alike whose requests have different types:
the names of these types are cut. -/
theorem not_signatures_told_apart :
    ∃ (first second : ServiceFile) (output : String),
      loadFile "in" (encodeOctets (String.ofList (longText 'a'))) = .ok first ∧
      loadFile "in" (encodeOctets (String.ofList (longText 'b'))) = .ok second ∧
      (first.services.map fun service => service.methods.map (·.request.erase)) ≠
        (second.services.map fun service => service.methods.map (·.request.erase)) ∧
      Command.run Tree.disk 80 ["info", "-iin"] (longTree 'a') = (.success output, longTree 'a') ∧
      Command.run Tree.disk 80 ["info", "-iin"] (longTree 'b') =
        (.success output, longTree 'b') := by
  have hfirst := loadFile_longText (.inl rfl : 'a' = 'a' ∨ 'a' = 'b')
  have hsecond := loadFile_longText (.inr rfl : 'b' = 'a' ∨ 'b' = 'b')
  have hshown : summaryText 80 [longService 'b'] = summaryText 80 [longService 'a'] :=
    summaryText_longService (by decide) (by decide)
  refine ⟨_, _, summaryText 80 [longService 'a'], hfirst, hsecond, by decide +kernel, ?_, ?_⟩
  · exact runs_info_in.run_tables (read_longTree 'a') hfirst rfl rfl 80
  · rw [← hshown]
    exact runs_info_in.run_tables (read_longTree 'b') hsecond rfl rfl 80

end Interpose
