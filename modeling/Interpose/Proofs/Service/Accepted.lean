import Interpose.Proofs.Service.Checks
import Interpose.Proofs.Service.Collection
import Interpose.Proofs.Service.Declaration

/-!
# Accepted blocks

What a block and its methods must look like to become a service: one service annotation with two
paths, methods that take a typed request and return a response or an error, and middleware
annotations that list paths. The block's annotation is checked first, then method by method the
signature and the middlewares. Nothing else can go wrong: the registry always has an index for a
middleware of its own methods.
-/

namespace Interpose

variable {Body : Type}

/-! ## Conditions -/

/-- A middleware annotation has parentheses with paths between them. Other annotations say
nothing. -/
def Annotation.ListsPaths (note : Annotation) : Prop :=
  note.name = middlewareAnnotation →
    ∃ arguments, note.arguments = some arguments ∧ ∀ argument ∈ arguments, argument.kind = .path

/-- The third parameter has a type, and the result is a `Result` of two types. -/
def MethodDef.Signed (method : MethodDef Body) : Prop :=
  (∃ request, method.params[2]? = some request ∧ request.type ≠ none) ∧
    ∃ result response error, method.result = some result ∧ result.lastName = resultName ∧
      result.args = [response, error]

/-- There is one service annotation, and it has two paths. -/
def ImplDef.Serves (impl : ImplDef Body) : Prop :=
  ∃ note interface server,
    (impl.annotations.filter fun note => note.name = serviceAnnotation) = [note] ∧
      note.arguments = some [interface, server] ∧ interface.kind = .path ∧ server.kind = .path

/-- The checks of a method: its signature comes before its middlewares. -/
def MethodDef.checks (method : MethodDef Body) : List Check :=
  [⟨.signature, method.Signed⟩, ⟨.middleware, ∀ note ∈ method.annotations, note.ListsPaths⟩]

/-- The checks of a block: its service annotation comes before its methods. -/
def ImplDef.checks (impl : ImplDef Body) : List Check :=
  ⟨.service, impl.Serves⟩ :: impl.methods.flatMap MethodDef.checks

/-! ## Middlewares -/

/-- An argument names a middleware exactly when it is a path. -/
theorem Argument.decides_middleware (argument : Argument) :
    Decides [⟨.middleware, argument.kind = .path⟩] argument.middleware := by
  obtain ⟨kind, value, span⟩ := argument
  cases kind with
  | path => exact .of_iff (by simp [Argument.middleware]) fun _ h => nomatch h
  | literal =>
    exact .of_iff (by simp [Argument.middleware]) fun _ h => Except.error.inj h ▸ rfl
  | call => exact .of_iff (by simp [Argument.middleware]) fun _ h => Except.error.inj h ▸ rfl

/-- An annotation names middlewares exactly when it lists paths. -/
theorem Annotation.decides_middlewares (note : Annotation) :
    Decides [⟨.middleware, note.ListsPaths⟩] note.middlewares := by
  by_cases hname : note.name = middlewareAnnotation
  · cases harguments : note.arguments with
    | none =>
      have hfault : note.middlewares = .error (.missingMiddlewares note.span) := by
        simp [hname, harguments, Annotation.middlewares]
      rw [hfault]
      refine .of_iff (by simp [ListsPaths, hname, harguments]) fun _ h => Except.error.inj h ▸ rfl
    | some arguments =>
      have hlist : note.middlewares = arguments.mapM Argument.middleware := by
        simp [hname, harguments, Annotation.middlewares]
      rw [hlist]
      refine (Decides.forall_mem fun argument _ => argument.decides_middleware).merge (by simp) ?_
      simp [ListsPaths, hname, harguments]
  · have hnone : note.middlewares = .ok [] := by simp [hname, Annotation.middlewares]
    rw [hnone]
    exact .of_iff (by simp [ListsPaths, hname]) fun _ h => nomatch h

/-- Annotations name middlewares exactly when each of them lists paths. -/
theorem decides_middlewaresOf (notes : List Annotation) :
    Decides [⟨.middleware, ∀ note ∈ notes, note.ListsPaths⟩] (middlewaresOf notes) :=
  (Decides.forall_mem fun note _ => note.decides_middlewares).map List.flatten

/-! ## Signatures -/

/-- The type of a request is there when the third parameter has a type. -/
theorem MethodDef.decides_requestType (method : MethodDef Body) :
    Decides [⟨.signature, ∃ request, method.params[2]? = some request ∧ request.type ≠ none⟩]
      method.requestType := by
  unfold MethodDef.requestType
  split
  · rename_i hparams
    split
    · rename_i htype
      exact .of_iff (by simp [hparams, htype]) fun _ h => nomatch h
    · rename_i htype
      exact .of_iff (by simp [hparams, htype]) fun _ h => Except.error.inj h ▸ rfl
  · rename_i hparams
    refine .of_iff ⟨fun ⟨_, h⟩ => (nomatch h), ?_⟩ fun _ h => Except.error.inj h ▸ rfl
    rintro ⟨request, hrequest, _⟩
    rcases hlist : method.params with _ | ⟨receiver, _ | ⟨environment, _ | ⟨third, rest⟩⟩⟩
    · simp [hlist] at hrequest
    · simp [hlist] at hrequest
    · simp [hlist] at hrequest
    · exact absurd hlist (hparams _ _ _ _)

/-- The types of a result are there when it is a `Result` of two types. -/
theorem MethodDef.decides_resultTypes (method : MethodDef Body) :
    Decides [⟨.signature, ∃ result response error, method.result = some result ∧
      result.lastName = resultName ∧ result.args = [response, error]⟩] method.resultTypes := by
  unfold MethodDef.resultTypes
  split
  · rename_i hresult
    exact .of_iff (by simp [hresult]) fun _ h => Except.error.inj h ▸ rfl
  · rename_i result hresult
    split
    · rename_i response error hargs
      split
      · rename_i hname
        exact .of_iff (by simp [hresult, hargs, hname]) fun _ h => nomatch h
      · rename_i hname
        exact .of_iff (by simp [hresult, hname]) fun _ h => Except.error.inj h ▸ rfl
    · rename_i hargs
      refine .of_iff ⟨fun ⟨_, h⟩ => (nomatch h), ?_⟩ fun _ h => Except.error.inj h ▸ rfl
      rintro ⟨other, response, error, hother, _, hother'⟩
      obtain rfl := Option.some.inj (hresult.symm.trans hother)
      exact absurd hother' (hargs _ _)

/-- The signature of a method is found exactly when the method has one. -/
theorem MethodDef.decides_signature (method : MethodDef Body) :
    Decides [⟨.signature, method.Signed⟩] method.signature := by
  refine Decides.merge (method.decides_requestType.bind fun _ _ =>
    method.decides_resultTypes.map _) (by simp) ?_
  simp [Signed]

/-- A method is declared exactly when its checks hold; the first one that fails is reported. -/
theorem MethodDef.decides_rpc (method : MethodDef String) :
    Decides method.checks method.rpc := by
  refine method.decides_signature.bind fun signature _ => ?_
  exact (decides_middlewaresOf method.annotations).map _

/-! ## Blocks -/

/-- An argument names an endpoint exactly when it is a path. -/
theorem Argument.decides_endpointName (role : ServiceRole) (argument : Argument) :
    Decides [⟨.service, argument.kind = .path⟩] (argument.endpointName role) := by
  obtain ⟨kind, value, span⟩ := argument
  cases kind with
  | path => exact .of_iff (by simp [Argument.endpointName]) fun _ h => nomatch h
  | literal =>
    exact .of_iff (by simp [Argument.endpointName]) fun _ h => Except.error.inj h ▸ rfl
  | call => exact .of_iff (by simp [Argument.endpointName]) fun _ h => Except.error.inj h ▸ rfl

/-- An annotation names an endpoint exactly when its arguments are two paths. -/
theorem Annotation.decides_endpoint (note : Annotation) :
    Decides [⟨.service, ∃ interface server, note.arguments = some [interface, server] ∧
      interface.kind = .path ∧ server.kind = .path⟩] note.endpoint := by
  have hpair : ∀ interface server : Argument, note.arguments.getD [] = [interface, server] ↔
      note.arguments = some [interface, server] := by
    intro interface server
    cases note.arguments <;> simp
  unfold Annotation.endpoint
  split
  · rename_i interface server harguments
    refine Decides.merge ((interface.decides_endpointName .interface).bind fun _ _ =>
      (server.decides_endpointName .server).map _) (by simp) ?_
    rw [(hpair interface server).mp harguments]
    simp
  · rename_i harguments
    refine .of_iff ⟨fun ⟨_, h⟩ => (nomatch h), ?_⟩ fun _ h => Except.error.inj h ▸ rfl
    rintro ⟨interface, server, hpath, _⟩
    exact absurd ((hpair interface server).mpr hpath) (harguments _ _)

/-- A service block has an endpoint exactly when it serves. -/
theorem ImplDef.decides_endpoint (impl : ImplDef Body) :
    Decides [⟨.service, impl.Serves⟩] impl.endpoint := by
  unfold ImplDef.endpoint ImplDef.Serves
  rw [← ImplDef.serviceAnnotations]
  split
  · rename_i hnone
    exact .of_iff (by simp [hnone]) fun _ h => Except.error.inj h ▸ rfl
  · rename_i note hnote
    refine note.decides_endpoint.merge (by simp) ?_
    simp [hnote]
  · rename_i first second rest hnotes
    exact .of_iff (by simp [hnotes]) fun _ h => Except.error.inj h ▸ rfl

/-- A registry is always built. -/
theorem Registry.decides_build (methods : List Rpc) : Decides [] (build methods) := by
  obtain ⟨resolved, hresolved⟩ := exists_resolve_collect methods
  rw [build, hresolved]
  exact .ok _

/-- A service is made exactly when all checks of its block hold. -/
theorem ImplDef.decides_service (impl : ImplDef String) : Decides impl.checks impl.service := by
  refine impl.decides_endpoint.bind fun endpoint _ => ?_
  refine (Decides.mapM fun method _ => method.decides_rpc).bind_ok fun rpcs _ => ?_
  exact (Registry.decides_build rpcs).map _

/-- The services of a definition are decided block by block. -/
theorem Definition.decides_services (definition : Definition String) :
    Decides (definition.impls.flatMap ImplDef.checks) definition.services :=
  Decides.mapM fun impl _ => impl.decides_service

/-- A block becomes a service when its annotation gives two names and each of its methods becomes
one of the service, since their registry can always be built. -/
theorem ImplDef.exists_service_iff {impl : ImplDef String} :
    (∃ service, impl.service = .ok service) ↔ (∃ endpoint, impl.endpoint = .ok endpoint) ∧
      ∀ method ∈ impl.methods, ∃ rpc, method.rpc = .ok rpc := by
  constructor
  · rintro ⟨service, h⟩
    obtain ⟨_, _, hendpoint, rpcs, hrpcs, _⟩ := service_eq_ok_iff.mp h
    refine ⟨⟨_, hendpoint⟩, fun method hmethod => ?_⟩
    obtain ⟨rpc, _, hrpc⟩ := exists_mem_of_forall₂ (mapM_eq_ok_iff.mp hrpcs) hmethod
    exact ⟨rpc, hrpc⟩
  · rintro ⟨⟨endpoint, hendpoint⟩, hmethods⟩
    obtain ⟨rpcs, hrpcs⟩ := exists_mapM_eq_ok hmethods
    obtain ⟨registry, resolved, hbuild, _⟩ := Registry.exists_built rpcs
    exact ⟨⟨impl.name, impl.bases, resolved, registry, endpoint⟩,
      service_eq_ok_iff.mpr ⟨rfl, rfl, hendpoint, rpcs, hrpcs, hbuild⟩⟩

/-- Whether a block becomes a service. The registry need not be built for that. -/
def ImplDef.accepted (impl : ImplDef String) : Bool :=
  impl.endpoint.isOk && impl.methods.all (·.rpc.isOk)

/-- An accepted block has a service. -/
theorem ImplDef.exists_service_of_accepted {impl : ImplDef String} (h : impl.accepted = true) :
    ∃ service, impl.service = .ok service := by
  obtain ⟨hendpoint, hmethods⟩ := Bool.and_eq_true_iff.mp h
  refine exists_service_iff.mpr ⟨exists_eq_ok_of_isOk hendpoint, fun method hmethod => ?_⟩
  exact exists_eq_ok_of_isOk (List.all_eq_true.mp hmethods method hmethod)

end Interpose
