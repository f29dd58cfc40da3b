import Interpose.Proofs.Definition.Spans
import Interpose.Proofs.Service.Declaration
import Interpose.Wrapper.Text

/-!
# Services at other spans

A block at other spans becomes the same service at those spans: with the same registry, the same
indices and the same endpoint. Spans are not written, so the text of the service is the same too.
-/

namespace Interpose

variable {Body : Type} (f : Span → Span)

/-- The middleware declared at another span. -/
def MiddlewareRef.mapSpan (ref : MiddlewareRef) : MiddlewareRef := { ref with span := f ref.span }

/-- The method with every span changed. -/
def Rpc.mapSpan (rpc : Rpc) : Rpc where
  name := rpc.name
  request := rpc.request.mapSpan f
  response := rpc.response.mapSpan f
  error := rpc.error.mapSpan f
  middlewares := rpc.middlewares.map (·.mapSpan f)
  indices := rpc.indices
  params := rpc.params.map (·.mapSpan f)
  body := rpc.body
  span := f rpc.span

/-- The service with every span changed. -/
def Service.mapSpan (service : Service) : Service where
  implementor := service.implementor
  bases := service.bases.map (·.mapSpan f)
  methods := service.methods.map (·.mapSpan f)
  registry := service.registry.map (·.mapSpan f)
  endpoint := service.endpoint

/-! ## What is written -/

namespace TypeExpr

@[simp] theorem name_mapSpan (type : TypeExpr) : (type.mapSpan f).name = type.name := by
  cases type
  rw [mapSpan_mk]

@[simp] theorem args_mapSpan (type : TypeExpr) :
    (type.mapSpan f).args = type.args.map (·.mapSpan f) := by
  cases type
  rw [mapSpan_mk]

mutual

/-- A type is written without its spans. -/
@[simp] theorem canonical_mapSpan (f : Span → Span) :
    ∀ type : TypeExpr, (type.mapSpan f).canonical = type.canonical
  | ⟨name, [], span⟩ => rfl
  | ⟨name, arg :: args, span⟩ => by
    rw [mapSpan, mapSpans, canonical, canonical, canonical_mapSpan f arg,
      canonicalRest_mapSpans f args]

/-- The canonical text of arguments does not depend on spans. -/
theorem canonicalRest_mapSpans (f : Span → Span) :
    ∀ args : List TypeExpr, canonicalRest (mapSpans f args) = canonicalRest args
  | [] => rfl
  | arg :: args => by
    rw [mapSpans, canonicalRest, canonicalRest, canonical_mapSpan f arg,
      canonicalRest_mapSpans f args]

end

end TypeExpr

@[simp] theorem Param.text_mapSpan (param : Param) : (param.mapSpan f).text = param.text := by
  obtain ⟨name, type, span⟩ := param
  cases type with
  | none => rfl
  | some type => simp [Param.text, Param.mapSpan]

@[simp] theorem Rpc.wrapperMethod_mapSpan (rpc : Rpc) :
    (rpc.mapSpan f).wrapperMethod = rpc.wrapperMethod := by
  simp [wrapperMethod, statements, mapSpan]

@[simp] theorem Rpc.heldBody_mapSpan (rpc : Rpc) : (rpc.mapSpan f).heldBody = rpc.heldBody := by
  simp [heldBody, mapSpan, Function.comp_def]

/-- The fields of a wrapper do not depend on spans. -/
theorem Service.fields_mapSpan (service : Service) :
    (service.mapSpan f).fields = service.fields := by
  simp [fields, mapSpan, MiddlewareRef.mapSpan, Function.comp_def]

/-- The classes of a service are written without its spans. -/
theorem Service.lines_mapSpan (service : Service) : (service.mapSpan f).lines = service.lines := by
  have hwrapper : (service.mapSpan f).wrapper = service.wrapper := by
    rw [wrapper, wrapper, fields_mapSpan]
    simp [mapSpan, Function.comp_def]
  have himplementor : (service.mapSpan f).implementorClass = service.implementorClass := by
    rw [implementorClass, implementorClass, fields_mapSpan]
    simp [mapSpan, Function.comp_def]
  rw [lines, lines, hwrapper, himplementor]

/-! ## Registries -/

namespace Registry

/-- Which references are kept once does not depend on spans. -/
theorem distinct_mapSpan (refs : List MiddlewareRef) :
    distinct (refs.map (·.mapSpan f)) = (distinct refs).map (·.mapSpan f) := by
  induction refs with
  | nil => rfl
  | cons ref refs ih =>
    rw [List.map_cons, distinct, ih, distinct, List.map_cons, List.filter_map]
    rfl

/-- The order of references does not depend on spans. -/
theorem sort_mapSpan (refs : List MiddlewareRef) :
    sort (refs.map (·.mapSpan f)) = (sort refs).map (·.mapSpan f) := by
  have horder : ∀ a ∈ refs, ∀ b ∈ refs, a.atMost b = (a.mapSpan f).atMost (b.mapSpan f) :=
    fun _ _ _ _ => rfl
  exact (List.map_mergeSort horder).symm

/-- The registry of some methods at other spans is their registry at those spans. -/
theorem collect_mapSpan (methods : List Rpc) :
    collect (methods.map (·.mapSpan f)) = (collect methods).map (·.mapSpan f) := by
  have hrefs : (methods.map (·.mapSpan f)).flatMap (·.middlewares) =
      (methods.flatMap (·.middlewares)).map (·.mapSpan f) := by
    rw [List.flatMap_map, List.map_flatMap]
    rfl
  rw [collect, hrefs, distinct_mapSpan, sort_mapSpan, ← collect]

/-- The index of a path does not depend on spans. -/
theorem index?_mapSpan (path : String) (registry : Registry) :
    index? path (registry.map (·.mapSpan f)) = index? path registry := by
  induction registry with
  | nil => rfl
  | cons ref refs ih =>
    rw [List.map_cons, index?, ih, index?]
    rfl

/-- A reference is found at the same index with other spans. -/
theorem find_mapSpan (registry : Registry) (ref : MiddlewareRef) (index : Int)
    (h : find registry ref = .ok index) :
    find (registry.map (·.mapSpan f)) (ref.mapSpan f) = .ok index := by
  unfold find at h ⊢
  rw [index?_mapSpan]
  cases hindex : index? ref.path registry with
  | none => simp [hindex] at h
  | some position =>
    have hpath : index? (ref.mapSpan f).path registry = some position := hindex
    rw [hindex] at h
    rw [hpath]
    exact h

/-- A method is resolved alike with other spans. -/
theorem resolveRpc_mapSpan (registry : Registry) (rpc resolved : Rpc)
    (h : resolveRpc registry rpc = .ok resolved) :
    resolveRpc (registry.map (·.mapSpan f)) (rpc.mapSpan f) = .ok (resolved.mapSpan f) := by
  obtain ⟨indices, hindices, rfl⟩ := map_eq_ok_iff.mp h
  have hfound := mapM_map_of_mapM (find_mapSpan f registry) hindices
  rw [List.map_id'] at hfound
  exact map_eq_ok_iff.mpr ⟨indices, hfound, rfl⟩

/-- A registry is built alike with other spans. -/
theorem build_mapSpan {methods resolved : List Rpc} {registry : Registry}
    (h : build methods = .ok (registry, resolved)) : build (methods.map (·.mapSpan f)) =
      .ok (registry.map (·.mapSpan f), resolved.map (·.mapSpan f)) := by
  obtain ⟨rfl, hresolved⟩ := build_eq_ok_iff.mp h
  refine build_eq_ok_iff.mpr ⟨(collect_mapSpan f methods).symm, ?_⟩
  exact mapM_map_of_mapM (resolveRpc_mapSpan f (collect methods)) hresolved

end Registry

/-! ## Blocks -/

variable {onBody : Body → Body}

/-- The type of the request is found alike with other spans. -/
theorem MethodDef.requestType_mapSpan {method : MethodDef Body} {request : TypeExpr}
    (h : method.requestType = .ok request) :
    (method.mapSpan f onBody).requestType = .ok (request.mapSpan f) := by
  unfold requestType at h ⊢
  rw [mapSpan]
  rcases hparams : method.params with _ | ⟨first, _ | ⟨second, _ | ⟨param, rest⟩⟩⟩
  · simp [hparams] at h
  · simp [hparams] at h
  · simp [hparams] at h
  · cases htype : param.type with
    | none => simp [hparams, htype] at h
    | some type =>
      obtain rfl : type = request := by simpa [hparams, htype] using h
      simp [Param.mapSpan, htype]

/-- The types of the response and of the error are found alike with other spans. -/
theorem MethodDef.resultTypes_mapSpan {method : MethodDef Body} {response error : TypeExpr}
    (h : method.resultTypes = .ok (response, error)) :
    (method.mapSpan f onBody).resultTypes = .ok (response.mapSpan f, error.mapSpan f) := by
  unfold resultTypes at h ⊢
  rw [mapSpan]
  cases hresult : method.result with
  | none => simp [hresult] at h
  | some result =>
    simp only [hresult] at h
    split at h
    · rename_i first second hargs
      by_cases hname : result.lastName = resultName
      · obtain ⟨rfl, rfl⟩ : first = response ∧ second = error := by simpa [hname] using h
        have hlast : (result.mapSpan f).lastName = resultName := by
          rw [TypeExpr.lastName, TypeExpr.name_mapSpan, ← TypeExpr.lastName, hname]
        simp [hargs, hlast]
      · simp [hname] at h
    · simp at h

/-- An argument names the same middleware with other spans. -/
theorem Argument.middleware_mapSpan (argument : Argument) (ref : MiddlewareRef)
    (h : argument.middleware = .ok ref) :
    (argument.mapSpan f).middleware = .ok (ref.mapSpan f) := by
  unfold middleware at h ⊢
  rw [mapSpan]
  cases hkind : argument.kind with
  | path =>
    obtain rfl : ⟨argument.value, argument.span⟩ = ref := by simpa [hkind] using h
    rfl
  | _ => simp [hkind] at h

/-- An annotation names the same middlewares with other spans. -/
theorem Annotation.middlewares_mapSpan (note : Annotation) (refs : List MiddlewareRef)
    (h : note.middlewares = .ok refs) :
    (note.mapSpan f).middlewares = .ok (refs.map (·.mapSpan f)) := by
  unfold middlewares at h ⊢
  rw [mapSpan]
  by_cases hname : note.name = middlewareAnnotation
  · rw [if_pos hname] at h ⊢
    cases hargs : note.arguments with
    | none => simp [hargs] at h
    | some arguments =>
      rw [hargs] at h
      exact mapM_map_of_mapM (Argument.middleware_mapSpan f) h
  · rw [if_neg hname] at h ⊢
    obtain rfl := Except.ok.inj h
    rfl

/-- Annotations name the same middlewares with other spans. -/
theorem middlewaresOf_mapSpan {notes : List Annotation} {refs : List MiddlewareRef}
    (h : middlewaresOf notes = .ok refs) :
    middlewaresOf (notes.map (·.mapSpan f)) = .ok (refs.map (·.mapSpan f)) := by
  obtain ⟨lists, hlists, rfl⟩ := map_eq_ok_iff.mp h
  have hmoved := mapM_map_of_mapM ( Annotation.middlewares_mapSpan f) hlists
  refine map_eq_ok_iff.mpr ⟨_, hmoved, ?_⟩
  rw [List.map_flatten]

/-- A method declares the same with other spans. -/
theorem MethodDef.rpc_mapSpan (method : MethodDef String) (rpc : Rpc) (h : method.rpc = .ok rpc) :
    (method.mapSpan f id).rpc = .ok (rpc.mapSpan f) := by
  obtain ⟨signature, hsignature, h⟩ := bind_eq_ok_iff.mp h
  obtain ⟨middlewares, hmiddlewares, h⟩ := bind_eq_ok_iff.mp h
  obtain ⟨request, hrequest, hsignature⟩ := bind_eq_ok_iff.mp hsignature
  obtain ⟨⟨response, error⟩, htypes, hsignature⟩ := bind_eq_ok_iff.mp hsignature
  obtain rfl := Except.ok.inj hsignature
  obtain rfl := Except.ok.inj h
  refine bind_eq_ok_iff.mpr ⟨⟨request.mapSpan f, response.mapSpan f, error.mapSpan f⟩, ?_, ?_⟩
  · refine bind_eq_ok_iff.mpr ⟨_, requestType_mapSpan f hrequest, ?_⟩
    exact bind_eq_ok_iff.mpr ⟨_, resultTypes_mapSpan f htypes, rfl⟩
  · exact bind_eq_ok_iff.mpr ⟨_, middlewaresOf_mapSpan f hmiddlewares, rfl⟩

/-- An argument names the same endpoint with other spans. -/
theorem Argument.endpointName_mapSpan {role : ServiceRole} {argument : Argument} {name : String}
    (h : argument.endpointName role = .ok name) :
    (argument.mapSpan f).endpointName role = .ok name := by
  unfold endpointName at h ⊢
  rw [mapSpan]
  cases hkind : argument.kind with
  | path => simpa [hkind] using h
  | _ => simp [hkind] at h

/-- An annotation names the same endpoint with other spans. -/
theorem Annotation.endpoint_mapSpan {note : Annotation} {endpoint : Endpoint}
    (h : note.endpoint = .ok endpoint) : (note.mapSpan f).endpoint = .ok endpoint := by
  obtain ⟨interface, server, hsome, hfirst, hsecond⟩ := endpoint_eq_ok_iff.mp h
  refine endpoint_eq_ok_iff.mpr ⟨interface.mapSpan f, server.mapSpan f, ?_,
    Argument.endpointName_mapSpan f hfirst, Argument.endpointName_mapSpan f hsecond⟩
  rw [mapSpan, hsome]
  rfl

namespace ImplDef

/-- A service block has the same endpoint with other spans. -/
theorem endpoint_mapSpan {impl : ImplDef Body} {endpoint : Endpoint}
    (h : impl.endpoint = .ok endpoint) : (impl.mapSpan f onBody).endpoint = .ok endpoint := by
  obtain ⟨note, hnotes, hnote⟩ := endpoint_eq_ok_iff.mp h
  refine endpoint_eq_ok_iff.mpr ⟨note.mapSpan f, ?_, Annotation.endpoint_mapSpan f hnote⟩
  calc (impl.mapSpan f onBody).serviceAnnotations
      = impl.serviceAnnotations.map (·.mapSpan f) := by
        rw [serviceAnnotations, mapSpan, List.filter_map, serviceAnnotations]
        rfl
    _ = [note.mapSpan f] := by rw [hnotes, List.map_singleton]

/-- A block at other spans becomes the same service at those spans. -/
theorem service_mapSpan {impl : ImplDef String} {service : Service}
    (h : impl.service = .ok service) :
    (impl.mapSpan f id).service = .ok (service.mapSpan f) := by
  obtain ⟨himplementor, hbases, hendpoint, rpcs, hrpcs, hbuild⟩ := service_eq_ok_iff.mp h
  have hbases' : (service.mapSpan f).bases = (impl.mapSpan f id).bases := by
    rw [Service.mapSpan, hbases]
    rfl
  exact service_eq_ok_iff.mpr ⟨himplementor, hbases', endpoint_mapSpan f hendpoint, _,
    mapM_map_of_mapM (MethodDef.rpc_mapSpan f) hrpcs, Registry.build_mapSpan f hbuild⟩

end ImplDef

end Interpose
