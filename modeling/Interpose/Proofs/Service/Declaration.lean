import Interpose.Proofs.Service.Registry
import Interpose.Service.Analysis

/-!
# What a service block declares

The middlewares and the error of a method can be read off the method as it is written, without a
registry. Every method of an accepted block becomes a method of the service that keeps its name,
its middlewares in their order and its error, and whose indices are in step with the registry.
-/

namespace Interpose

namespace MethodDef

variable {Body : Type}

/-- The paths that the middleware annotations of a method list, one list after the other. -/
def middlewarePaths (method : MethodDef Body) : List String :=
  (method.annotations.filter fun note => note.name = middlewareAnnotation).flatMap fun note =>
    (note.arguments.getD []).map (·.value)

/-- The name of the class of errors that a method declares, the second argument of its result. -/
def errorName (method : MethodDef Body) : String :=
  match method.result with
  | some ⟨_, [_, error], _⟩ => error.name
  | _ => ""

end MethodDef

/-- An argument that is a middleware is its path. -/
theorem Argument.path_of_middleware {argument : Argument} {ref : MiddlewareRef}
    (h : argument.middleware = .ok ref) : ref.path = argument.value := by
  unfold Argument.middleware at h
  split at h
  · rw [← Except.ok.inj h]
  · simp at h

/-- What the middleware annotations among some annotations list, one list after the other. -/
def middlewareArguments (notes : List Annotation) : List Argument :=
  (notes.filter fun note => note.name = middlewareAnnotation).flatMap (·.arguments.getD [])

/-- Middleware annotations say what their lists say one after the other. -/
theorem mapM_middlewareArguments {notes : List Annotation} {refs : List MiddlewareRef}
    (h : middlewaresOf notes = .ok refs) :
    (middlewareArguments notes).mapM Argument.middleware = .ok refs := by
  obtain ⟨lists, hlists, rfl⟩ := map_eq_ok_iff.mp h
  have hnotes := mapM_eq_ok_iff.mp hlists
  clear h hlists
  rw [mapM_eq_ok_iff]
  induction hnotes with
  | nil => exact .nil
  | @cons note refs notes lists hnote _ ih =>
    unfold Annotation.middlewares at hnote
    by_cases hname : note.name = middlewareAnnotation
    · rw [if_pos hname] at hnote
      cases harguments : note.arguments with
      | none => simp [harguments] at hnote
      | some arguments =>
        rw [harguments] at hnote
        have hfirst : middlewareArguments (note :: notes) =
            arguments ++ middlewareArguments notes := by
          simp [middlewareArguments, hname, harguments]
        rw [hfirst, List.flatten_cons]
        exact List.rel_append (mapM_eq_ok_iff.mp hnote) ih
    · rw [if_neg hname] at hnote
      obtain rfl := Except.ok.inj hnote
      have hskip : middlewareArguments (note :: notes) = middlewareArguments notes := by
        simp [middlewareArguments, hname]
      rw [hskip]
      exact ih

/-- The middlewares of annotations are the paths that they list, in textual order. -/
theorem paths_of_middlewaresOf {notes : List Annotation} {refs : List MiddlewareRef}
    (h : middlewaresOf notes = .ok refs) :
    refs.map (·.path) = (middlewareArguments notes).map (·.value) :=
  map_eq_of_mapM (fun _ _ h => Argument.path_of_middleware h) (mapM_middlewareArguments h)

/-- A result of the accepted shape names the declared error. -/
theorem MethodDef.errorName_of_resultTypes {Body : Type} {method : MethodDef Body}
    {response error : TypeExpr} (h : method.resultTypes = .ok (response, error)) :
    error.name = method.errorName := by
  unfold MethodDef.resultTypes at h
  unfold MethodDef.errorName
  split at h
  · simp at h
  · rename_i result hr
    split at h
    · rename_i first second ha
      split at h
      · obtain ⟨rfl, rfl⟩ : first = response ∧ second = error := by simpa using h
        obtain ⟨name, args, span⟩ := result
        obtain rfl : args = [first, second] := ha
        rw [hr]
      · simp at h
    · simp at h

/-- The paths of a method are the arguments that its middleware annotations list. -/
theorem MethodDef.middlewarePaths_eq {Body : Type} (method : MethodDef Body) :
    method.middlewarePaths = (middlewareArguments method.annotations).map (·.value) := by
  rw [middlewarePaths, middlewareArguments, List.map_flatMap]

/-- What a method declares is what a method of a service has. -/
structure MethodDef.Declares (method : MethodDef String) (rpc : Rpc) : Prop where
  /-- The names agree. -/
  name : rpc.name = method.name
  /-- The middlewares agree, in their order. -/
  middlewares : rpc.middlewares.map (·.path) = method.middlewarePaths
  /-- The declared errors agree. -/
  error : rpc.error.name = method.errorName

/-- A method becomes one that has what it declares. -/
theorem MethodDef.declares_of_rpc {method : MethodDef String} {rpc : Rpc}
    (h : method.rpc = .ok rpc) : method.Declares rpc := by
  obtain ⟨signature, hs, h⟩ := bind_eq_ok_iff.mp h
  obtain ⟨refs, hm, h⟩ := bind_eq_ok_iff.mp h
  obtain ⟨request, _, hs⟩ := bind_eq_ok_iff.mp hs
  obtain ⟨⟨response, error⟩, ht, hs⟩ := bind_eq_ok_iff.mp hs
  rw [← Except.ok.inj h, ← Except.ok.inj hs]
  refine ⟨rfl, ?_, errorName_of_resultTypes ht⟩
  rw [middlewarePaths_eq]
  exact paths_of_middlewaresOf hm

/-- A service annotation gives names when it has two arguments that do. -/
theorem Annotation.endpoint_eq_ok_iff {note : Annotation} {endpoint : Endpoint} :
    note.endpoint = .ok endpoint ↔ ∃ interface server, note.arguments = some [interface, server] ∧
      interface.endpointName .interface = .ok endpoint.interface ∧
      server.endpointName .server = .ok endpoint.server := by
  unfold Annotation.endpoint
  constructor
  · intro h
    split at h
    · rename_i interface server harguments
      obtain ⟨first, hfirst, h⟩ := bind_eq_ok_iff.mp h
      obtain ⟨second, hsecond, h⟩ := bind_eq_ok_iff.mp h
      obtain rfl := Except.ok.inj h
      refine ⟨interface, server, ?_, hfirst, hsecond⟩
      cases hsome : note.arguments with
      | none => simp [hsome] at harguments
      | some arguments => simpa [hsome] using harguments
    · simp at h
  · rintro ⟨interface, server, hsome, hfirst, hsecond⟩
    rw [hsome]
    exact bind_eq_ok_iff.mpr ⟨_, hfirst, bind_eq_ok_iff.mpr ⟨_, hsecond, rfl⟩⟩

/-- A block has the names that its only service annotation gives. -/
theorem ImplDef.endpoint_eq_ok_iff {Body : Type} {impl : ImplDef Body} {endpoint : Endpoint} :
    impl.endpoint = .ok endpoint ↔
      ∃ note, impl.serviceAnnotations = [note] ∧ note.endpoint = .ok endpoint := by
  unfold ImplDef.endpoint
  constructor
  · intro h
    split at h
    · simp at h
    · rename_i note hnotes
      exact ⟨note, hnotes, h⟩
    · simp at h
  · rintro ⟨note, hnotes, hnote⟩
    rw [hnotes]
    exact hnote

/-- A block becomes a service when its annotation gives two names and its methods become methods
whose registry is built. -/
theorem ImplDef.service_eq_ok_iff {impl : ImplDef String} {service : Service} :
    impl.service = .ok service ↔ service.implementor = impl.name ∧ service.bases = impl.bases ∧
      impl.endpoint = .ok service.endpoint ∧ ∃ rpcs, impl.methods.mapM MethodDef.rpc = .ok rpcs ∧
        Registry.build rpcs = .ok (service.registry, service.methods) := by
  constructor
  · intro h
    obtain ⟨endpoint, hendpoint, h⟩ := bind_eq_ok_iff.mp h
    obtain ⟨rpcs, hrpcs, h⟩ := bind_eq_ok_iff.mp h
    obtain ⟨⟨registry, methods⟩, hbuild, h⟩ := bind_eq_ok_iff.mp h
    obtain rfl := Except.ok.inj h
    exact ⟨rfl, rfl, hendpoint, rpcs, hrpcs, hbuild⟩
  · obtain ⟨implementor, bases, methods, registry, endpoint⟩ := service
    rintro ⟨rfl, rfl, hendpoint, rpcs, hrpcs, hbuild⟩
    refine bind_eq_ok_iff.mpr ⟨endpoint, hendpoint, bind_eq_ok_iff.mpr ⟨rpcs, hrpcs, ?_⟩⟩
    exact bind_eq_ok_iff.mpr ⟨_, hbuild, rfl⟩

/-- A method becomes one of a service with a registry: it gets indices that are in step with it. -/
def MethodDef.Becomes (registry : Registry) (method : MethodDef String) (rpc : Rpc) : Prop :=
  ∃ unresolved, method.rpc = .ok unresolved ∧ (∃ indices, rpc = { unresolved with indices }) ∧
    rpc.InStep registry

/-- The methods of a block become those of its service, in order. -/
theorem ImplDef.becomes_of_service {impl : ImplDef String} {service : Service}
    (h : impl.service = .ok service) :
    List.Forall₂ (MethodDef.Becomes service.registry) impl.methods service.methods := by
  obtain ⟨_, _, _, rpcs, hrpcs, hbuild⟩ := service_eq_ok_iff.mp h
  refine forall₂_trans ?_ (mapM_eq_ok_iff.mp hrpcs) (Registry.build_eq_ok hbuild)
  exact fun method unresolved rpc hrpc hbuilt => ⟨unresolved, hrpc, hbuilt⟩

theorem MethodDef.Becomes.declares {registry : Registry} {method : MethodDef String} {rpc : Rpc}
    (h : method.Becomes registry rpc) : method.Declares rpc := by
  obtain ⟨unresolved, hrpc, ⟨indices, rfl⟩, _⟩ := h
  have hdeclares := declares_of_rpc hrpc
  exact ⟨hdeclares.name, hdeclares.middlewares, hdeclares.error⟩

theorem MethodDef.Becomes.inStep {registry : Registry} {method : MethodDef String} {rpc : Rpc}
    (h : method.Becomes registry rpc) : rpc.InStep registry := by
  obtain ⟨_, _, _, hstep⟩ := h
  exact hstep

/-- The methods of a service are those of its block, in order, and in step with the registry. -/
theorem ImplDef.service_eq_ok {impl : ImplDef String} {service : Service}
    (h : impl.service = .ok service) : service.implementor = impl.name ∧
      List.Forall₂ (fun method rpc => method.Declares rpc ∧ rpc.InStep service.registry)
        impl.methods service.methods :=
  ⟨(service_eq_ok_iff.mp h).1,
    (becomes_of_service h).imp fun _ _ hmethod => ⟨hmethod.declares, hmethod.inStep⟩⟩

/-- A service is built with the names of its block's service annotation. -/
theorem ImplDef.endpoint_of_service {impl : ImplDef String} {service : Service}
    (h : impl.service = .ok service) : impl.endpoint = .ok service.endpoint :=
  (service_eq_ok_iff.mp h).2.2.1

/-- What a method of a service takes over unchanged from the method as it is written. -/
structure MethodDef.Keeps (method : MethodDef String) (rpc : Rpc) : Prop where
  /-- Its name. -/
  name : rpc.name = method.name
  /-- All its parameters. -/
  params : rpc.params = method.params
  /-- Its body. -/
  body : rpc.body = method.body

theorem MethodDef.keeps_of_rpc {method : MethodDef String} {rpc : Rpc}
    (h : method.rpc = .ok rpc) : method.Keeps rpc := by
  obtain ⟨signature, _, h⟩ := bind_eq_ok_iff.mp h
  obtain ⟨refs, _, h⟩ := bind_eq_ok_iff.mp h
  rw [← Except.ok.inj h]
  exact ⟨rfl, rfl, rfl⟩

/-- The methods of a service keep what those of its block hold, in order. -/
theorem ImplDef.keeps_of_service {impl : ImplDef String} {service : Service}
    (h : impl.service = .ok service) :
    List.Forall₂ MethodDef.Keeps impl.methods service.methods := by
  refine (becomes_of_service h).imp ?_
  rintro method _ ⟨unresolved, hrpc, ⟨indices, rfl⟩, _⟩
  have hkeeps := MethodDef.keeps_of_rpc hrpc
  exact ⟨hkeeps.name, hkeeps.params, hkeeps.body⟩

/-- A method of a service has the types of the signature of a method as it is written. -/
def MethodDef.Signs (method : MethodDef String) (rpc : Rpc) : Prop :=
  method.signature = .ok ⟨rpc.request, rpc.response, rpc.error⟩

theorem MethodDef.Becomes.signs {registry : Registry} {method : MethodDef String} {rpc : Rpc}
    (h : method.Becomes registry rpc) : method.Signs rpc := by
  obtain ⟨unresolved, hrpc, ⟨indices, rfl⟩, _⟩ := h
  obtain ⟨signature, hsignature, hrpc⟩ := bind_eq_ok_iff.mp hrpc
  obtain ⟨refs, _, hrpc⟩ := bind_eq_ok_iff.mp hrpc
  rw [← Except.ok.inj hrpc]
  exact hsignature

/-- The methods of a service have the names of those of its block. -/
theorem ImplDef.names_of_service {impl : ImplDef String} {service : Service}
    (h : impl.service = .ok service) :
    service.methods.map (·.name) = impl.methods.map (·.name) :=
  map_eq_of_forall₂ ((keeps_of_service h).imp fun _ _ hkept => hkept.name)

end Interpose
