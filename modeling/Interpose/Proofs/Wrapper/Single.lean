import Interpose.Proofs.Definition.Printer
import Interpose.Proofs.Service.Collection
import Interpose.Proofs.Service.Declaration
import Interpose.Proofs.Wrapper.Lines

/-!
# What a service writes on one line

The names, the paths and the types of a definition that can be written hold no newline. So all that
the service of its block takes over, bodies aside, is written on one line.
-/

namespace Interpose

open Source Text

/-! ## Names, paths and types -/

/-- A character that no name holds is not in a name. -/
theorem notMem_of_isName {c : Char} (hstart : isNameStart c = false) (hrest : isNameRest c = false)
    {cs : List Char} (h : isName cs) : c ∉ cs := by
  cases cs with
  | nil => simp
  | cons d ds =>
    obtain ⟨hd, hds⟩ : isNameStart d = true ∧ ∀ e ∈ ds, isNameRest e = true := by
      simpa [isName] using h
    intro hmem
    rcases List.mem_cons.mp hmem with rfl | hmem
    · simp [hstart] at hd
    · exact absurd (hds c hmem) (by simp [hrest])

/-- A name is on one line. -/
theorem oneLine_of_isName {name : String} (h : isName name.toList) : OneLine name :=
  notMem_of_isName (by decide) (by decide) h

/-- A dotted path is on one line. -/
theorem IsDotted.oneLine {text : String} (h : IsDotted text) : OneLine text := by
  obtain ⟨names, _, hnames, rfl⟩ := h
  exact oneLine_intercalate (by decide) fun name hmem => oneLine_of_isName (hnames name hmem)

/-- What follows the last dot of a dotted name is a name. -/
theorem IsDotted.isName_lastSegment {path : String} (h : IsDotted path) :
    isName (lastSegment path).toList := by
  obtain ⟨names, hne, hnames, rfl⟩ := h
  obtain ⟨last, hlast, hpath⟩ : ∃ last, isName last ∧
      ((".".intercalate names).toList = last ∨
        ∃ front, (".".intercalate names).toList = front ++ '.' :: last) := by
    induction names with
    | nil => exact absurd rfl hne
    | cons name names ih =>
      obtain ⟨hname, hrest⟩ := List.forall_mem_cons.mp hnames
      cases names with
      | nil => exact ⟨name.toList, hname, .inl (by simp)⟩
      | cons next names =>
        obtain ⟨last, hlast, hpath⟩ := ih (by simp) hrest
        rw [String.intercalate_cons_cons, String.toList_append, String.toList_append]
        refine ⟨last, hlast, .inr ?_⟩
        rcases hpath with hwhole | ⟨front, hfront⟩
        · exact ⟨name.toList, by simp [hwhole]⟩
        · exact ⟨name.toList ++ '.' :: front, by simp [hfront]⟩
  have hdots : last.reverse.all (· ≠ '.') = true := by
    refine List.all_eq_true.mpr fun c hmem => ?_
    have hdot : '.' ∉ last := notMem_of_isName (by decide) (by decide) hlast
    simpa using ne_of_mem_of_not_mem (List.mem_reverse.mp hmem) hdot
  have htake : (".".intercalate names).toList.reverse.takeWhile (· ≠ '.') = last.reverse := by
    rcases hpath with hwhole | ⟨front, hfront⟩
    · rw [hwhole, List.takeWhile_eq_self_iff]
      exact List.all_eq_true.mp hdots
    · rw [hfront, List.reverse_append, List.reverse_cons, List.append_assoc]
      exact takeWhile_append_of_head hdots (by simp)
  rw [lastSegment, htake, List.reverse_reverse, String.toList_ofList]
  exact hlast

/-- The arguments of a type after the first one are written on one line when each of them is. -/
theorem oneLine_canonicalRest {args : List TypeExpr} (h : ∀ arg ∈ args, OneLine arg.canonical) :
    OneLine (TypeExpr.canonicalRest args) := by
  induction args with
  | nil => decide
  | cons arg args ih =>
    obtain ⟨harg, hrest⟩ := List.forall_mem_cons.mp h
    rw [TypeExpr.canonicalRest, oneLine_append, oneLine_append]
    exact ⟨⟨by decide, harg⟩, ih hrest⟩

/-- A well-named type is on one line. -/
theorem TypeExpr.WellNamed.oneLine {type : TypeExpr} (h : type.WellNamed) :
    OneLine type.canonical := by
  induction h with
  | @mk name args span hname _ ih =>
    cases args with
    | nil => exact hname.oneLine
    | cons arg args =>
      obtain ⟨harg, hrest⟩ := List.forall_mem_cons.mp ih
      simp only [TypeExpr.canonical, oneLine_append]
      exact ⟨⟨⟨⟨hname.oneLine, by decide⟩, harg⟩, oneLine_canonicalRest hrest⟩, by decide⟩

/-- The name of a well-named type is dotted. -/
theorem TypeExpr.WellNamed.name {type : TypeExpr} (h : type.WellNamed) : IsDotted type.name := by
  cases h with
  | mk hname _ => exact hname

/-- The arguments of a well-named type are well named. -/
theorem TypeExpr.WellNamed.args {type : TypeExpr} (h : type.WellNamed) :
    ∀ arg ∈ type.args, arg.WellNamed := by
  cases h with
  | mk _ hargs => exact hargs

/-- A well-formed parameter is on one line. -/
theorem Param.WellFormed.oneLine {param : Param} (h : param.WellFormed) : OneLine param.text := by
  have hname : OneLine param.name := oneLine_of_isName h.name
  unfold Param.text
  split
  · exact hname
  · rename_i type htype
    simp only [oneLine_append]
    exact ⟨⟨hname, by decide⟩, (h.type type htype).oneLine⟩

/-! ## Accepted methods and blocks -/

/-- The type of a request is that of a parameter. -/
theorem MethodDef.exists_param_of_requestType {Body : Type} {method : MethodDef Body}
    {request : TypeExpr} (h : method.requestType = .ok request) :
    ∃ param ∈ method.params, param.type = some request := by
  unfold MethodDef.requestType at h
  split at h
  · rename_i first second param rest hparams
    split at h
    · rename_i type htype
      rw [← Except.ok.inj h]
      exact ⟨param, by simp [hparams], htype⟩
    · cases h
  · cases h

/-- The types of a response and of errors are the arguments of the result. -/
theorem MethodDef.exists_result_of_resultTypes {Body : Type} {method : MethodDef Body}
    {response error : TypeExpr} (h : method.resultTypes = .ok (response, error)) :
    ∃ result, method.result = some result ∧ result.args = [response, error] := by
  unfold MethodDef.resultTypes at h
  split at h
  · cases h
  · rename_i result hresult
    split at h
    · rename_i first second hargs
      split at h
      · obtain ⟨rfl, rfl⟩ := Prod.mk.inj (Except.ok.inj h)
        exact ⟨result, hresult, hargs⟩
      · cases h
    · cases h

/-- The middlewares of annotations are dotted names. -/
theorem isDotted_of_middlewaresOf {notes : List Annotation}
    (hnotes : ∀ note ∈ notes, note.WellFormed) {refs : List MiddlewareRef}
    (h : middlewaresOf notes = .ok refs) : ∀ ref ∈ refs, IsDotted ref.path := by
  obtain ⟨lists, hlists, rfl⟩ := map_eq_ok_iff.mp h
  intro ref hmem
  obtain ⟨list, hlist, href⟩ := List.mem_flatten.mp hmem
  obtain ⟨note, hnote, hmiddlewares⟩ := exists_of_mem_mapM hlists hlist
  unfold Annotation.middlewares at hmiddlewares
  split at hmiddlewares
  · split at hmiddlewares
    · cases hmiddlewares
    · rename_i arguments harguments
      obtain ⟨argument, hargument, hfound⟩ := exists_of_mem_mapM hmiddlewares href
      have hvalue := (hnotes note hnote).arguments arguments harguments argument hargument
      unfold Argument.middleware at hfound
      split at hfound
      · rename_i hkind
        rw [hkind] at hvalue
        rw [← Except.ok.inj hfound]
        cases hvalue with
        | path hpath => exact hpath
      · cases hfound
  · obtain rfl := Except.ok.inj hmiddlewares
    simp at href

/-- What an argument gives is a name, the end of a dotted one. -/
theorem isName_of_endpointName {role : ServiceRole} {argument : Argument}
    (hvalue : IsValue argument.kind argument.value) {name : String}
    (h : argument.endpointName role = .ok name) : isName name.toList := by
  unfold Argument.endpointName at h
  split at h
  · rename_i hkind
    rw [hkind] at hvalue
    rw [← Except.ok.inj h]
    cases hvalue with
    | path hpath => exact hpath.isName_lastSegment
  · cases h

/-- The only service annotation of an accepted block gives its names. -/
theorem ImplDef.exists_note_of_endpoint {Body : Type} {impl : ImplDef Body} {endpoint : Endpoint}
    (h : impl.endpoint = .ok endpoint) :
    ∃ note ∈ impl.annotations, note.endpoint = .ok endpoint := by
  obtain ⟨note, hnotes, hnote⟩ := endpoint_eq_ok_iff.mp h
  have hmem : note ∈ impl.serviceAnnotations := by simp [hnotes]
  exact ⟨note, (List.mem_filter.mp hmem).1, hnote⟩

/-- A service annotation gives names. -/
theorem Annotation.isName_of_endpoint {note : Annotation} (hnote : note.WellFormed)
    {endpoint : Endpoint} (h : note.endpoint = .ok endpoint) :
    isName endpoint.interface.toList ∧ isName endpoint.server.toList := by
  obtain ⟨interface, server, hsome, hfirst, hsecond⟩ := endpoint_eq_ok_iff.mp h
  have hvalues := hnote.arguments _ hsome
  exact ⟨isName_of_endpointName (hvalues _ (by simp)) hfirst,
    isName_of_endpointName (hvalues _ (by simp)) hsecond⟩

/-! ## Services -/

/-- A method whose texts, its body aside, stand on one line. -/
structure Rpc.Lined (rpc : Rpc) : Prop where
  name : isName rpc.name.toList
  request : OneLine rpc.request.canonical
  response : OneLine rpc.response.canonical
  error : OneLine rpc.error.name
  params : ∀ param ∈ rpc.params, OneLine param.text
  paths : ∀ path ∈ rpc.paths, OneLine path

/-- A service whose texts, its bodies aside, stand on one line. -/
structure Service.Lined (service : Service) : Prop where
  implementor : OneLine service.implementor
  interface : OneLine service.endpoint.interface
  server : OneLine service.endpoint.server
  bases : ∀ base ∈ service.bases, OneLine base.canonical
  fields : ∀ path ∈ service.fields, OneLine path
  methods : ∀ rpc ∈ service.methods, rpc.Lined

/-- The types of a method that can be written have dotted names. -/
structure Rpc.WellNamed (rpc : Rpc) : Prop where
  request : rpc.request.WellNamed
  response : rpc.response.WellNamed
  error : rpc.error.WellNamed

/-- The method of a well-formed method is well named. -/
theorem MethodDef.wellNamed_of_rpc {IsBody : String → Prop} {method : MethodDef String}
    (hmethod : method.WellFormed IsBody) {rpc : Rpc} (h : method.rpc = .ok rpc) :
    rpc.WellNamed := by
  obtain ⟨signature, hsignature, h⟩ := bind_eq_ok_iff.mp h
  obtain ⟨refs, _, h⟩ := bind_eq_ok_iff.mp h
  obtain ⟨request, hrequest, hsignature⟩ := bind_eq_ok_iff.mp hsignature
  obtain ⟨⟨response, error⟩, hresult, hsignature⟩ := bind_eq_ok_iff.mp hsignature
  obtain ⟨param, hparam, hrequest⟩ := exists_param_of_requestType hrequest
  obtain ⟨result, hresult, hargs⟩ := exists_result_of_resultTypes hresult
  have htypes : ∀ type ∈ [response, error], type.WellNamed :=
    hargs ▸ (hmethod.result result hresult).args
  rw [← Except.ok.inj h, ← Except.ok.inj hsignature]
  exact ⟨(hmethod.params param hparam).type request hrequest, htypes response (by simp),
    htypes error (by simp)⟩

/-- A method that can be written becomes one whose texts stand on one line. -/
theorem MethodDef.lined_of_rpc {IsBody : String → Prop} {method : MethodDef String}
    (hmethod : method.WellFormed IsBody) {rpc : Rpc} (h : method.rpc = .ok rpc) : rpc.Lined := by
  have hnamed := wellNamed_of_rpc hmethod h
  have hkeeps := keeps_of_rpc h
  obtain ⟨signature, _, h⟩ := bind_eq_ok_iff.mp h
  obtain ⟨refs, hrefs, h⟩ := bind_eq_ok_iff.mp h
  refine ⟨hkeeps.name ▸ hmethod.name, hnamed.request.oneLine, hnamed.response.oneLine,
    hnamed.error.name.oneLine, fun param hmem => ?_, fun path hpath => ?_⟩
  · exact (hmethod.params param (hkeeps.params ▸ hmem)).oneLine
  · rw [← Except.ok.inj h] at hpath
    obtain ⟨ref, hmem, rfl⟩ := List.mem_map.mp hpath
    exact (isDotted_of_middlewaresOf hmethod.annotations hrefs ref hmem).oneLine

/-- The methods of a service are made from those of its block, and get their indices afterwards. -/
theorem ImplDef.exists_rpc_of_service {impl : ImplDef String} {service : Service}
    (h : impl.service = .ok service) {rpc : Rpc} (hmem : rpc ∈ service.methods) :
    ∃ method ∈ impl.methods, ∃ unresolved indices, method.rpc = .ok unresolved ∧
      rpc = { unresolved with indices } := by
  obtain ⟨_, _, _, rpcs, hrpcs, hbuild⟩ := service_eq_ok_iff.mp h
  obtain ⟨_, hresolved⟩ := Registry.build_eq_ok_iff.mp hbuild
  obtain ⟨unresolved, hunresolved, hrpc⟩ := exists_of_mem_mapM hresolved hmem
  obtain ⟨⟨indices, rfl⟩, _⟩ := Registry.resolveRpc_eq_ok hrpc
  obtain ⟨method, hmethod, hrpc⟩ := exists_of_mem_mapM hrpcs hunresolved
  exact ⟨method, hmethod, unresolved, indices, hrpc, rfl⟩

section

variable {IsBody : String → Prop} {impl : ImplDef String} (himpl : impl.WellFormed IsBody)
  {service : Service} (h : impl.service = .ok service)
include himpl h

/-- The methods of a block that can be written have types with dotted names. -/
theorem ImplDef.wellNamed_of_service : ∀ rpc ∈ service.methods, rpc.WellNamed := by
  intro rpc hmem
  obtain ⟨method, hmethod, unresolved, indices, hrpc, rfl⟩ := exists_rpc_of_service h hmem
  obtain ⟨hrequest, hresponse, herror⟩ :=
    MethodDef.wellNamed_of_rpc (himpl.methods method hmethod) hrpc
  exact ⟨hrequest, hresponse, herror⟩

/-- A block that can be written names an interface and a server. -/
theorem ImplDef.isName_endpoint : isName service.endpoint.interface.toList ∧
    isName service.endpoint.server.toList := by
  obtain ⟨note, hnote, hnames⟩ := exists_note_of_endpoint (endpoint_of_service h)
  exact Annotation.isName_of_endpoint (himpl.annotations note hnote) hnames

/-- A block that can be written becomes a service whose texts stand on one line. -/
theorem ImplDef.lined_of_service : service.Lined := by
  obtain ⟨hinterface, hserver⟩ := isName_endpoint himpl h
  have hlined : ∀ rpc ∈ service.methods, rpc.Lined := by
    intro rpc hmem
    obtain ⟨method, hmethod, unresolved, indices, hrpc, rfl⟩ := exists_rpc_of_service h hmem
    have hlined := MethodDef.lined_of_rpc (himpl.methods method hmethod) hrpc
    exact ⟨hlined.name, hlined.request, hlined.response, hlined.error, hlined.params, hlined.paths⟩
  obtain ⟨himplementor, hbases, _, rpcs, hrpcs, hbuild⟩ := service_eq_ok_iff.mp h
  obtain ⟨hregistry, _⟩ := Registry.build_eq_ok_iff.mp hbuild
  refine ⟨himplementor ▸ oneLine_of_isName himpl.name, oneLine_of_isName hinterface,
    oneLine_of_isName hserver, ?_, fun path hpath => ?_, hlined⟩
  · rw [hbases]
    exact fun base hmem => (himpl.bases base hmem).oneLine
  · rw [Service.fields, hregistry] at hpath
    obtain ⟨rpc, hrpc, hmem⟩ := Registry.mem_paths_collect.mp hpath
    obtain ⟨method, hmethod, hrpc⟩ := exists_of_mem_mapM hrpcs hrpc
    exact (MethodDef.lined_of_rpc (himpl.methods method hmethod) hrpc).paths path hmem

end

end Interpose
