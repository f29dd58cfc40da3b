import Interpose.Proofs.Composition

/-!
# What matters of a definition

The essence of a definition is what is left of it without spans, without annotations that say
nothing here, without the modules in front of the names of a service annotation, and with the
middleware lists of each method put together. A block becomes the service that its essence becomes,
so files with one essence become one module.
-/

namespace Interpose

variable {Body : Type}

/-- The argument without the module in front of its name, when it is a path. -/
def Argument.bare (argument : Argument) : Argument :=
  match argument.kind with
  | .path => { argument with value := lastSegment argument.value }
  | _ => argument

/-- The annotation with its arguments bare. -/
def Annotation.bare (note : Annotation) : Annotation :=
  { note with arguments := note.arguments.map (·.map Argument.bare) }

/-- One annotation that lists some middlewares, unless there are none. -/
def gatheredAnnotations (arguments : List Argument) : List Annotation :=
  if arguments = [] then [] else [⟨ middlewareAnnotation, some arguments, .none⟩]

/-- The method with one middleware annotation at most, and no other annotations. -/
def MethodDef.gathered (method : MethodDef Body) : MethodDef Body :=
  { method with annotations := gatheredAnnotations (middlewareArguments method.annotations) }

/-- The block with nothing but what matters of its annotations. -/
def ImplDef.essence (impl : ImplDef Body) : ImplDef Body :=
  { impl with
    methods := impl.methods.map MethodDef.gathered
    annotations := impl.serviceAnnotations.map Annotation.bare }

/-- What matters of a definition. -/
def Definition.essence (definition : Definition String) : Definition String where
  imports := definition.imports
  impls := definition.erase.impls.map ImplDef.essence

/-! ## Methods -/

/-- One list of middlewares is as good as several. -/
theorem middlewaresOf_gathered {notes : List Annotation} {refs : List MiddlewareRef}
    (h : middlewaresOf notes = .ok refs) :
    middlewaresOf (gatheredAnnotations (middlewareArguments notes)) = .ok refs := by
  have hrefs := mapM_middlewareArguments h
  unfold gatheredAnnotations
  by_cases hnone : middlewareArguments notes = []
  · rw [hnone] at hrefs
    obtain rfl := Except.ok.inj hrefs
    rw [if_pos hnone]
    rfl
  · rw [if_neg hnone]
    refine map_eq_ok_iff.mpr ⟨[refs], mapM_eq_ok_iff.mpr (.cons ?_ .nil), by simp⟩
    rw [ Annotation.middlewares, if_pos rfl]
    exact hrefs

/-- A method becomes what it becomes with its annotations gathered. -/
theorem MethodDef.rpc_gathered (method : MethodDef String) (rpc : Rpc) (h : method.rpc = .ok rpc) :
    method.gathered.rpc = .ok rpc := by
  obtain ⟨signature, hsignature, h⟩ := bind_eq_ok_iff.mp h
  obtain ⟨middlewares, hmiddlewares, h⟩ := bind_eq_ok_iff.mp h
  refine bind_eq_ok_iff.mpr ⟨signature, hsignature, ?_⟩
  exact bind_eq_ok_iff.mpr ⟨middlewares, middlewaresOf_gathered hmiddlewares, h⟩

/-! ## Blocks -/

/-- A name without a module stays as it is. -/
@[simp] theorem lastSegment_lastSegment (path : String) :
    lastSegment (lastSegment path) = lastSegment path := by
  simp [lastSegment, List.takeWhile_takeWhile]

theorem Argument.endpointName_bare (role : ServiceRole) (argument : Argument) :
    argument.bare.endpointName role = argument.endpointName role := by
  obtain ⟨kind, value, span⟩ := argument
  cases kind with
  | path => simp [bare, endpointName]
  | _ => rfl

theorem Annotation.endpoint_bare {note : Annotation} {endpoint : Endpoint}
    (h : note.endpoint = .ok endpoint) : note.bare.endpoint = .ok endpoint := by
  obtain ⟨interface, server, hsome, hfirst, hsecond⟩ := endpoint_eq_ok_iff.mp h
  refine endpoint_eq_ok_iff.mpr ⟨interface.bare, server.bare, ?_, ?_, ?_⟩
  · rw [bare, hsome]
    rfl
  · rw [Argument.endpointName_bare, hfirst]
  · rw [Argument.endpointName_bare, hsecond]

theorem ImplDef.serviceAnnotations_essence (impl : ImplDef Body) :
    impl.essence.serviceAnnotations = impl.serviceAnnotations.map Annotation.bare := by
  rw [serviceAnnotations, essence, List.filter_map]
  congr 1
  rw [List.filter_eq_self]
  intro note hnote
  exact (List.mem_filter.mp hnote).2

/-- A block becomes the service that its essence becomes. -/
theorem ImplDef.service_essence {impl : ImplDef String} {service : Service}
    (h : impl.service = .ok service) : impl.essence.service = .ok service := by
  obtain ⟨himplementor, hbases, hendpoint, rpcs, hrpcs, hbuild⟩ := service_eq_ok_iff.mp h
  refine service_eq_ok_iff.mpr ⟨himplementor, hbases, ?_, rpcs, ?_, hbuild⟩
  · obtain ⟨note, hnotes, hnote⟩ := endpoint_eq_ok_iff.mp hendpoint
    refine endpoint_eq_ok_iff.mpr ⟨note.bare, ?_, Annotation.endpoint_bare hnote⟩
    rw [serviceAnnotations_essence, hnotes, List.map_singleton]
  · have hgathered := mapM_map_of_mapM MethodDef.rpc_gathered hrpcs
    rw [List.map_id'] at hgathered
    exact hgathered

/-! ## Files -/

/-- The service without spans. -/
def Service.erase (service : Service) : Service := service.mapSpan fun _ => .none

/-- What a definition's essence becomes is its services without spans. -/
theorem Definition.services_essence {definition : Definition String} {services : List Service}
    (h : definition.services = .ok services) :
    definition.essence.services = .ok (services.map Service.erase) := by
  have hblock : ∀ (impl : ImplDef String) (service : Service), impl.service = .ok service →
      (impl.mapSpan (fun _ => .none) id).essence.service = .ok service.erase :=
    fun _ _ hservice => ImplDef.service_essence (ImplDef.service_mapSpan _ hservice)
  have himpls : definition.essence.impls =
      definition.impls.map fun impl => (impl.mapSpan (fun _ => .none) id).essence := by
    rw [essence, erase, mapSpan, List.map_map]
    rfl
  rw [Definition.services, himpls]
  exact mapM_map_of_mapM hblock h

/-- Services that are equal without spans have the same registry and the same indices, and are
written alike. -/
structure Service.Alike (service other : Service) : Prop where
  /-- The paths in the registry. -/
  registry : service.registry.map (·.path) = other.registry.map (·.path)
  /-- The indices of each method. -/
  indices : service.methods.map (·.indices) = other.methods.map (·.indices)
  /-- The classes. -/
  text : service.text = other.text

theorem Service.alike_of_erase_eq {service other : Service} (h : service.erase = other.erase) :
    service.Alike other := by
  have hregistry : ∀ service : Service,
      service.erase.registry.map (·.path) = service.registry.map (·.path) := by
    intro service
    rw [erase, mapSpan, List.map_map]
    rfl
  have hindices : ∀ service : Service,
      service.erase.methods.map (·.indices) = service.methods.map (·.indices) := by
    intro service
    rw [erase, mapSpan, List.map_map]
    rfl
  refine ⟨?_, ?_, ?_⟩
  · rw [← hregistry service, h, hregistry other]
  · rw [← hindices service, h, hindices other]
  · rw [Service.text, Service.text, ← lines_mapSpan (fun _ => .none) service, ← erase, h, erase,
      lines_mapSpan]

/-- Generated code depends on the essence only. Two files that are accepted and have one essence
become one module, and their services have the same registries and the same indices. -/
theorem generate_eq_of_essence_eq {first second : String} {definition other : Definition String}
    (hfirst : parse first = .ok definition) (hsecond : parse second = .ok other)
    (hessence : definition.essence = other.essence) {support code code' : String}
    (hcode : generate support first = .ok code) (hcode' : generate support second = .ok code') :
    code = code' ∧ ∃ services services',
      Generated support first code definition services ∧
      Generated support second code' other services' ∧
      List.Forall₂ Service.Alike services services' := by
  obtain ⟨_, services, hgenerated⟩ := generate_eq_ok_iff.mp hcode
  obtain ⟨_, services', hgenerated'⟩ := generate_eq_ok_iff.mp hcode'
  obtain rfl := Except.ok.inj (hfirst.symm.trans hgenerated.parsed)
  obtain rfl := Except.ok.inj (hsecond.symm.trans hgenerated'.parsed)
  have hservices := Definition.services_essence (mapM_eq_ok_iff.mpr hgenerated.built)
  have hservices' := Definition.services_essence (mapM_eq_ok_iff.mpr hgenerated'.built)
  rw [hessence] at hservices
  have herase := Except.ok.inj (hservices.symm.trans hservices')
  rw [← List.forall₂_eq_eq_eq, List.forall₂_map_left_iff, List.forall₂_map_right_iff] at herase
  have halike := herase.imp fun _ _ => Service.alike_of_erase_eq
  have htexts : services'.map Service.text = services.map Service.text :=
    map_eq_of_forall₂ (halike.imp fun _ _ h => h.text.symm)
  have himports : definition.imports = other.imports := congrArg (·.imports) hessence
  refine ⟨?_, services, services', hgenerated, hgenerated', halike⟩
  rw [hgenerated.written, hgenerated'.written, htexts, himports]

/-- A file with annotations that say nothing, a module in front of a name, and the middlewares of
its method in two lists. -/
def chattyText : String :=
  "@note(1) @middleware_service(pkg.Shop, serve) impl A \x7b @middleware(a, b.C) @doc\n" ++
    "@middleware(a) @middleware() rpc f(self, env, r: R) -> Result[P, E] " ++
    "\x60\x60\x60x\x60\x60\x60 \x7d"

/-- The same file without them, on one line and with one list. -/
def terseText : String :=
  "@middleware_service(Shop, x.serve) impl A \x7b@middleware(a, b.C, a) " ++
    "rpc f(self, env, r: R) -> Result[P, E] \x60\x60\x60x\x60\x60\x60\x7d"

/-- The essence of both. -/
def sharedEssence : Definition String where
  imports := []
  impls := [{
    name := "A"
    bases := []
    methods := [{
      name := "f"
      params := [⟨"self", none, .none⟩, ⟨"env", none, .none⟩, ⟨"r", some ⟨"R", [], .none⟩, .none⟩]
      result := some ⟨"Result", [⟨"P", [], .none⟩, ⟨"E", [], .none⟩], .none⟩
      body := "x"
      annotations := [⟨ middlewareAnnotation,
        some [⟨.path, "a", .none⟩, ⟨.path, "b.C", .none⟩, ⟨.path, "a", .none⟩], .none⟩]
      span := .none }]
    annotations := [⟨ serviceAnnotation,
      some [⟨.path, "Shop", .none⟩, ⟨.path, "serve", .none⟩], .none⟩]
    span := .none }]

theorem generate_chatty_eq_terse : ∃ definition other code,
    parse chattyText = .ok definition ∧ parse terseText = .ok other ∧
      definition.essence = other.essence ∧ definition.erase ≠ other.erase ∧
      generate defaultSupport chattyText = .ok code ∧
      generate defaultSupport terseText = .ok code := by
  have hchatty : (parse chattyText).map (fun definition => (definition.impls.all ImplDef.accepted,
      definition.essence, definition.erase.impls.map (·.annotations.length))) =
        .ok (true, sharedEssence, [2]) := by
    have htext : chattyText.toList = _ := Text.toList_append_of_eq (Text.toList_append_of_eq
      String.toList_ofList String.toList_ofList) String.toList_ofList
    rw [parse, htext]
    decide +kernel
  have hterse : (parse terseText).map (fun definition => (definition.impls.all ImplDef.accepted,
      definition.essence, definition.erase.impls.map (·.annotations.length))) =
        .ok (true, sharedEssence, [1]) := by
    have htext : terseText.toList = _ :=
      Text.toList_append_of_eq String.toList_ofList String.toList_ofList
    rw [parse, htext]
    decide +kernel
  obtain ⟨definition, hdefinition, hfound⟩ := map_eq_ok_iff.mp hchatty
  obtain ⟨other, hother, hfound'⟩ := map_eq_ok_iff.mp hterse
  obtain ⟨haccepted, hessence, hnotes⟩ := by simpa only [Prod.mk.injEq] using hfound
  obtain ⟨haccepted', hessence', hnotes'⟩ := by simpa only [Prod.mk.injEq] using hfound'
  have hcode := generate_of_accepted hdefinition haccepted defaultSupport
  have hcode' := generate_of_accepted hother haccepted' defaultSupport
  have hsame : definition.essence = other.essence := hessence.trans hessence'.symm
  have heq := (generate_eq_of_essence_eq hdefinition hother hsame hcode hcode').1
  refine ⟨definition, other, _, hdefinition, hother, hsame, ?_, hcode, heq ▸ hcode'⟩
  intro herase
  rw [herase, hnotes'] at hnotes
  simp at hnotes

end Interpose
