import Interpose.Proofs.Service.Accepted
import Interpose.Proofs.Wrapper.Wiring

/-!
# Methods in another order

The registry of a block is a matter of the middlewares that its methods use, each of its methods is
written from the method and the registry alone, and all else is written from the registry. So
methods in another order are written as before in that order, and what one method lists is of no
consequence for the others as long as it lists the same middlewares.
-/

namespace Interpose

/-! ## Methods -/

/-- The method of a service that a written method becomes with a registry. -/
def MethodDef.resolvedIn (registry : Registry) (method : MethodDef String) : Except Fault Rpc :=
  method.rpc.bind (Registry.resolveRpc registry)

/-- The lines of the wrapper's method for a written method, with a registry. -/
def MethodDef.wrapperLines (registry : Registry) (method : MethodDef String) : List String :=
  match method.resolvedIn registry with
  | .ok rpc => rpc.wrapperMethod.lines
  | .error _ => []

/-- The lines of the body of a written method, with a registry. -/
def MethodDef.bodyLines (registry : Registry) (method : MethodDef String) : List String :=
  match method.resolvedIn registry with
  | .ok rpc => rpc.heldBody.lines
  | .error _ => []

theorem Registry.index?_congr {registry other : Registry}
    (h : registry.map (·.path) = other.map (·.path)) (path : String) :
    index? path registry = index? path other := by
  induction registry generalizing other with
  | nil =>
    obtain rfl : other = [] := List.map_eq_nil_iff.mp h.symm
    rfl
  | cons ref refs ih =>
    cases other with
    | nil => simp at h
    | cons first rest =>
      obtain ⟨hpath, hrest⟩ := List.cons.inj h
      have hhead : ref.path = first.path := hpath
      rw [index?, index?, ih hrest, hhead]

/-- What a method becomes depends on the paths of the registry only. -/
theorem MethodDef.resolvedIn_congr {registry other : Registry}
    (h : registry.map (·.path) = other.map (·.path)) (method : MethodDef String) :
    method.resolvedIn registry = method.resolvedIn other := by
  have hfind : Registry.find registry = Registry.find other := by
    ext ref
    rw [Registry.find, Registry.find, Registry.index?_congr h]
  have hresolve : Registry.resolveRpc registry = Registry.resolveRpc other := by
    ext rpc
    rw [Registry.resolveRpc, Registry.resolveRpc, hfind]
  rw [resolvedIn, resolvedIn, hresolve]

/-! ## Blocks -/

section

variable {impl other : ImplDef String} {service service' : Service}
  (h : impl.service = .ok service)
include h

/-- The methods of a service are those of its block with the service's registry. -/
theorem ImplDef.resolvedIn_of_service :
    impl.methods.mapM (MethodDef.resolvedIn service.registry) = .ok service.methods := by
  obtain ⟨_, _, _, rpcs, hrpcs, hbuild⟩ := service_eq_ok_iff.mp h
  obtain ⟨_, hresolved⟩ := Registry.build_eq_ok_iff.mp hbuild
  rw [mapM_eq_ok_iff]
  refine forall₂_trans ?_ (mapM_eq_ok_iff.mp hrpcs) (mapM_eq_ok_iff.mp hresolved)
  intro method rpc resolved hrpc hresolve
  exact bind_eq_ok_iff.mpr ⟨rpc, hrpc, hresolve⟩

/-- The fields of a service are the middlewares that the methods of its block list. -/
theorem ImplDef.mem_fields_iff (path : String) :
    path ∈ service.fields ↔ ∃ method ∈ impl.methods, path ∈ method.middlewarePaths := by
  obtain ⟨_, _, _, rpcs, hrpcs, hbuild⟩ := service_eq_ok_iff.mp h
  obtain ⟨hregistry, _⟩ := Registry.build_eq_ok_iff.mp hbuild
  have hpaths : ∀ (method : MethodDef String) (rpc : Rpc), method.rpc = .ok rpc →
      rpc.paths = method.middlewarePaths :=
    fun _ _ hrpc => (MethodDef.declares_of_rpc hrpc).middlewares
  rw [Service.fields, hregistry, Registry.mem_paths_collect]
  constructor
  · rintro ⟨rpc, hrpc, hmem⟩
    obtain ⟨method, hmethod, hmade⟩ := exists_of_mem_mapM hrpcs hrpc
    exact ⟨method, hmethod, hpaths method rpc hmade ▸ hmem⟩
  · rintro ⟨method, hmethod, hmem⟩
    obtain ⟨rpc, hrpc, hmade⟩ := exists_mem_of_forall₂ (mapM_eq_ok_iff.mp hrpcs) hmethod
    exact ⟨rpc, hrpc, hpaths method rpc hmade ▸ hmem⟩

theorem ImplDef.pairwise_fields : service.fields.Pairwise (· < ·) := by
  obtain ⟨_, _, _, rpcs, _, hbuild⟩ := service_eq_ok_iff.mp h
  rw [Service.fields, (Registry.build_eq_ok_iff.mp hbuild).1]
  exact Registry.pairwise_lt_collect rpcs

/-- Blocks whose methods list the same middlewares have the same fields, in the same order. -/
theorem ImplDef.fields_eq (hother : other.service = .ok service')
    (hpaths : ∀ path, (∃ method ∈ other.methods, path ∈ method.middlewarePaths) ↔
      ∃ method ∈ impl.methods, path ∈ method.middlewarePaths) :
    service'.fields = service.fields := by
  apply (pairwise_fields hother).eq_of_mem_iff (pairwise_fields h)
  intro path
  rw [mem_fields_iff hother, mem_fields_iff h, hpaths]

end

/-! ## Services -/

/-- The lines of a service with the methods that some written methods become with its registry. -/
def Service.linesFrom (service : Service) (source : List (MethodDef String)) : List String :=
  ["", "", service.wrapper.title] ++ service.wrapper.head ++
    source.flatMap (·.wrapperLines service.registry) ++
  (["", "", service.implementorClass.title] ++ service.implementorClass.head ++
    source.flatMap (·.bodyLines service.registry))

/-- A service is written as another one is but for its methods, which are written from some written
methods one by one, with the registry of the other service. -/
structure Service.WrittenFrom (model : Service) (source : List (MethodDef String))
    (service : Service) : Prop where
  /-- The method that makes the wrapper. -/
  init : service.wrapper.head = model.wrapper.head
  /-- The methods of the wrapper. -/
  methods : service.wrapper.methods.map WrapperMethod.lines =
    source.map (·.wrapperLines model.registry)
  /-- The method that wraps the service. -/
  serve : service.implementorClass.head = model.implementorClass.head
  /-- The bodies. -/
  bodies : service.implementorClass.bodies.map HeldBody.lines =
    source.map (·.bodyLines model.registry)
  /-- The whole text. -/
  lines : service.lines = model.linesFrom source

/-- Blocks with the same head whose services have the same fields are opened alike: a service writes
besides its methods only what its name, its bases, its endpoint and its fields say. -/
theorem ImplDef.heads_eq_of_service {impl other : ImplDef String} {service service' : Service}
    (h : impl.service = .ok service) (hother : other.service = .ok service')
    (hhead : other = { impl with methods := other.methods })
    (hfields : service'.fields = service.fields) :
    service'.wrapper.title = service.wrapper.title ∧
      service'.wrapper.head = service.wrapper.head ∧
      service'.implementorClass.title = service.implementorClass.title ∧
      service'.implementorClass.head = service.implementorClass.head := by
  obtain ⟨himplementor, hbases, hendpoint, _⟩ := service_eq_ok_iff.mp h
  obtain ⟨himplementor', hbases', hendpoint', _⟩ := service_eq_ok_iff.mp hother
  have hname : service'.implementor = service.implementor := by
    rw [himplementor, himplementor', hhead]
  have hextends : service'.bases = service.bases := by
    rw [hbases, hbases', hhead]
  have hserver : service'.endpoint = service.endpoint := by
    have hsame : other.endpoint = impl.endpoint := by
      rw [hhead]
      rfl
    exact Except.ok.inj (hendpoint'.symm.trans (hsame.trans hendpoint))
  refine ⟨?_, ?_, ?_, ?_⟩
  · simp only [Wrapper.title, Service.wrapper, hname, hserver]
  · simp only [Wrapper.head, Wrapper.kept, Service.wrapper, hfields, hname]
  · simp only [Implementor.title, Service.implementorClass, hname, hextends]
  · simp only [Implementor.head, Implementor.passed, Service.implementorClass, hfields, hname,
      hserver]

/-- A block with the same head, whose methods list the same middlewares, is written as the block is
but for its methods. -/
theorem ImplDef.writtenFrom_of_service {impl other : ImplDef String} {service service' : Service}
    (h : impl.service = .ok service) (hother : other.service = .ok service')
    (hhead : other = { impl with methods := other.methods })
    (hpaths : ∀ path, (∃ method ∈ other.methods, path ∈ method.middlewarePaths) ↔
      ∃ method ∈ impl.methods, path ∈ method.middlewarePaths) :
    service.WrittenFrom other.methods service' := by
  have hfields : service'.fields = service.fields := fields_eq h hother hpaths
  have hresolved : other.methods.mapM (MethodDef.resolvedIn service.registry) =
      .ok service'.methods := by
    have hsame : MethodDef.resolvedIn service.registry = MethodDef.resolvedIn service'.registry :=
      funext (MethodDef.resolvedIn_congr hfields.symm)
    rw [hsame]
    exact resolvedIn_of_service hother
  obtain ⟨htitle, hinit, htitle', hserve⟩ := heads_eq_of_service h hother hhead hfields
  have hmethods : service'.wrapper.methods.map WrapperMethod.lines =
      other.methods.map (·.wrapperLines service.registry) := by
    rw [Service.wrapper, List.map_map]
    refine map_eq_of_mapM (fun method rpc hrpc => ?_) hresolved
    rw [MethodDef.wrapperLines, hrpc]
    rfl
  have hbodies : service'.implementorClass.bodies.map HeldBody.lines =
      other.methods.map (·.bodyLines service.registry) := by
    rw [Service.implementorClass, List.map_map]
    refine map_eq_of_mapM (fun method rpc hrpc => ?_) hresolved
    rw [MethodDef.bodyLines, hrpc]
    rfl
  refine ⟨hinit, hmethods, hserve, hbodies, ?_⟩
  rw [Service.lines, Wrapper.lines_eq, Implementor.lines_eq, htitle, hinit, htitle', hserve,
    List.flatMap_def, hmethods, List.flatMap_def, hbodies, Service.linesFrom, List.flatMap_def,
    List.flatMap_def]

/-! ## Other orders and other lists -/

theorem mem_middlewareArguments_iff {notes : List Annotation} {argument : Argument} :
    argument ∈ middlewareArguments notes ↔
      ∃ note ∈ notes, note.name = middlewareAnnotation ∧ argument ∈ note.arguments.getD [] := by
  simp [middlewareArguments, and_assoc]

/-- What an argument of a list says, wherever it stands. -/
def Argument.entry (argument : Argument) : ArgumentKind × String := (argument.kind, argument.value)

/-- The same method with annotations that list the same middlewares, in any order and any number of
times. -/
structure MethodDef.Relists (method other : MethodDef String) : Prop where
  /-- The rest of the method is the same. -/
  rest : other = { method with annotations := other.annotations }
  /-- Its middleware annotations have parentheses. -/
  listed : ∀ note ∈ other.annotations, note.name = middlewareAnnotation → note.arguments.isSome
  /-- The entries of their lists are the same, as a set. -/
  entries : ∀ entry, entry ∈ (middlewareArguments other.annotations).map Argument.entry ↔
    entry ∈ (middlewareArguments method.annotations).map Argument.entry

namespace MethodDef.Relists

variable {method other : MethodDef String} (h : method.Relists other)
include h

/-- The same middlewares are listed. -/
theorem mem_middlewarePaths_iff (path : String) :
    path ∈ other.middlewarePaths ↔ path ∈ method.middlewarePaths := by
  have hvalues : ∀ method : MethodDef String, method.middlewarePaths =
      ((middlewareArguments method.annotations).map Argument.entry).map (·.2) := by
    intro method
    rw [middlewarePaths_eq, List.map_map]
    rfl
  rw [hvalues, hvalues, List.mem_map, List.mem_map]
  simp only [h.entries]

/-- A method that can be read can be read with other lists of the same middlewares. -/
theorem exists_rpc {rpc : Rpc} (hrpc : method.rpc = .ok rpc) : ∃ rpc', other.rpc = .ok rpc' := by
  obtain ⟨hsigned, hpaths⟩ := by
    simpa [MethodDef.checks] using method.decides_rpc.holds rpc hrpc
  have hpath : ∀ argument ∈ middlewareArguments method.annotations, argument.kind = .path := by
    intro argument hmem
    obtain ⟨note, hnote, hname, hlisted⟩ := mem_middlewareArguments_iff.mp hmem
    obtain ⟨arguments, harguments, hkinds⟩ := hpaths note hnote hname
    rw [harguments] at hlisted
    exact hkinds argument hlisted
  refine other.decides_rpc.exists_ok_iff.mpr ?_
  simp only [MethodDef.checks, List.forall_mem_cons]
  refine ⟨?_, fun note hnote hname => ?_, by simp⟩
  · rw [h.rest]
    exact hsigned
  · obtain ⟨arguments, harguments⟩ := Option.isSome_iff_exists.mp (h.listed note hnote hname)
    refine ⟨arguments, harguments, fun argument hlisted => ?_⟩
    have hmem : argument ∈ middlewareArguments other.annotations :=
      mem_middlewareArguments_iff.mpr ⟨note, hnote, hname, by rw [harguments]; exact hlisted⟩
    obtain ⟨same, hsame, hentry⟩ :=
      List.mem_map.mp ((h.entries argument.entry).mp (List.mem_map_of_mem hmem))
    have hkind : same.kind = argument.kind := congrArg Prod.fst hentry
    rw [← hkind]
    exact hpath same hsame

end MethodDef.Relists

/-- Reordering is harmless. An accepted block is accepted with its methods in any other order, and
with other lists of the same middlewares for one of its methods. The methods that make the wrapper
and the server are then written as before, and so is every method whose lists have not changed: from
itself and the registry of the block, in the new order. -/
theorem writtenFrom_of_reordered {impl : ImplDef String} {service : Service}
    (h : impl.service = .ok service) :
    service.WrittenFrom impl.methods service ∧
      (∀ methods, methods.Perm impl.methods → ∃ other,
        ({ impl with methods } : ImplDef String).service = .ok other ∧
        service.WrittenFrom methods other) ∧
      ∀ before method relisted after, impl.methods = before ++ method :: after →
        method.Relists relisted → ∃ other,
          ({ impl with methods := before ++ relisted :: after } : ImplDef String).service =
            .ok other ∧
          service.WrittenFrom (before ++ relisted :: after) other := by
  obtain ⟨hendpoint, hmade⟩ := ImplDef.exists_service_iff.mp ⟨service, h⟩
  refine ⟨ImplDef.writtenFrom_of_service h h rfl fun _ => Iff.rfl, ?_, ?_⟩
  · intro methods hperm
    have hmethods : ∀ method ∈ methods, ∃ rpc, method.rpc = .ok rpc :=
      fun method hmem => hmade method (hperm.mem_iff.mp hmem)
    have hexists : ∃ other, ({ impl with methods } : ImplDef String).service = .ok other :=
      ImplDef.exists_service_iff.mpr ⟨hendpoint, hmethods⟩
    obtain ⟨other, hother⟩ := hexists
    refine ⟨other, hother, ImplDef.writtenFrom_of_service h hother rfl fun path => ?_⟩
    simp only [hperm.mem_iff]
  · intro before method relisted after hsplit hrelists
    rw [hsplit, List.forall_mem_append, List.forall_mem_cons] at hmade
    obtain ⟨hbefore, ⟨rpc, hrpc⟩, hafter⟩ := hmade
    have hmethods : ∀ method ∈ before ++ relisted :: after, ∃ rpc, method.rpc = .ok rpc :=
      List.forall_mem_append.mpr
        ⟨hbefore, List.forall_mem_cons.mpr ⟨hrelists.exists_rpc hrpc, hafter⟩⟩
    have hexists : ∃ other, ({ impl with methods := before ++ relisted :: after } :
        ImplDef String).service = .ok other :=
      ImplDef.exists_service_iff.mpr ⟨hendpoint, hmethods⟩
    obtain ⟨other, hother⟩ := hexists
    refine ⟨other, hother, ImplDef.writtenFrom_of_service h hother rfl fun path => ?_⟩
    simp only [hsplit, List.mem_append, List.mem_cons, or_and_right, exists_or, exists_eq_left,
      hrelists.mem_middlewarePaths_iff]

/-- The same method with one annotation that lists some middlewares. -/
def MethodDef.listing (paths : List String) (method : MethodDef String) : MethodDef String :=
  { method with annotations :=
      [⟨ middlewareAnnotation, some (paths.map fun path => ⟨.path, path, .none⟩), .none⟩] }

/-- The first method of the block that sells. -/
def buying : MethodDef String := store.methods.head (by simp [store])

/-- The methods after it. -/
def afterBuying : List (MethodDef String) := store.methods.tail

theorem relists_buying : buying.Relists (buying.listing ["Auth", "log.Log"]) where
  rest := rfl
  listed := by
    intro note hnote _
    obtain rfl := List.mem_singleton.mp hnote
    rfl
  entries := by
    have hold : (middlewareArguments buying.annotations).map Argument.entry =
        [(.path, "log.Log"), (.path, "Auth"), (.path, "log.Log")] := by decide +kernel
    have hnew : (middlewareArguments (buying.listing ["Auth", "log.Log"]).annotations).map
        Argument.entry = [(.path, "Auth"), (.path, "log.Log")] := by decide +kernel
    intro entry
    rw [hold, hnew]
    simp only [List.mem_cons, List.not_mem_nil]
    tauto

theorem writtenFrom_store :
    (∃ other, ({ store with methods := store.methods.reverse } : ImplDef String).service =
        .ok other ∧ storeService.WrittenFrom store.methods.reverse other) ∧
      buying.Relists (buying.listing ["Auth", "log.Log"]) ∧
      ∃ other, ({ store with methods := buying.listing ["Auth", "log.Log"] :: afterBuying } :
          ImplDef String).service = .ok other ∧
        storeService.WrittenFrom (buying.listing ["Auth", "log.Log"] :: afterBuying) other := by
  obtain ⟨_, horders, hlists⟩ := writtenFrom_of_reordered service_store
  have hsplit : store.methods = [] ++ buying :: afterBuying := rfl
  exact ⟨horders _ store.methods.reverse_perm, relists_buying,
    hlists [] buying _ afterBuying hsplit relists_buying⟩

end Interpose
