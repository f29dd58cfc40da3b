import Interpose.Proofs.Call.Naming

/-!
# Wrappers do what blocks declare

The statements of a wrapper's method find middlewares through indices and fields, and contexts
through numbered variables. When the names that they use mean what the block means, they leave,
statement by statement, the same log, the same counts and the same answer as the call of what the
method declares. The main statement carries this from one call to any sequence of calls.
-/

namespace Interpose

/-- Contexts with their positions, as the variables of a call hold them. -/
def numbered (contexts : List Json) : List (Nat × Json) := contexts.zipIdx.map Prod.swap

/-- The last context has the last number. -/
theorem numbered_concat (contexts : List Json) (context : Json) :
    numbered (contexts ++ [context]) = numbered contexts ++ [(contexts.length, context)] := by
  simp [numbered, List.zipIdx_append]

/-- Contexts are found by their numbers. -/
private theorem lookup_zipIdx_swap (contexts : List Json) (first position : Nat) :
    ((contexts.zipIdx first).map Prod.swap).lookup (first + position) = contexts[position]? := by
  induction contexts generalizing first position with
  | nil => rfl
  | cons context contexts ih =>
    cases position with
    | zero => simp
    | succ position =>
      have hne : (first + (position + 1) == first) = false := by simp
      rw [List.zipIdx_cons, List.map_cons, Prod.swap_prod_mk, List.lookup_cons, hne,
        show first + (position + 1) = first + 1 + position by omega, ih]
      simp

/-- A variable holds the context of its position. -/
theorem lookup_numbered (contexts : List Json) (position : Nat) :
    (numbered contexts).lookup position = contexts[position]? := by
  have h := lookup_zipIdx_swap contexts 0 position
  rwa [Nat.zero_add] at h

@[simp] theorem length_numbered (contexts : List Json) :
    (numbered contexts).length = contexts.length := by
  simp [numbered]

/-- Contexts are numbered from zero on. -/
theorem map_fst_numbered (contexts : List Json) :
    (numbered contexts).map Prod.fst = List.range (numbered contexts).length := by
  have hswap : Prod.fst ∘ Prod.swap = (Prod.snd : Json × Nat → Nat) := rfl
  rw [length_numbered, numbered, List.map_map, hswap, List.zipIdx_map_snd, List.range_eq_range']

/-- The statements of a method that follow the hooks before the call. -/
def Rpc.inner (rpc : Rpc) : List Statement :=
  .gather rpc.middlewares.length :: .call rpc.name rpc.error.name ::
    (hooks .after 0 rpc.indices ++ [.answer])

/-- A method runs its hooks before the call and then all that is within them. -/
theorem Rpc.statements_eq (rpc : Rpc) :
    rpc.statements = hooks .before 0 rpc.indices ++ rpc.inner := by
  simp [Rpc.statements, Rpc.inner]

namespace Setting

variable (setting : Setting)

/-- The variables of a call whose hooks so far returned some contexts. -/
def entered (request : Json) (contexts : List Json) (log : List Event) (counts : Counts) : Frame :=
  ⟨request, numbered contexts, [], none, log, counts⟩

/-- The hooks before a call run on the middlewares that the fields hold. -/
theorem run_before {indices : List Int} {paths : List String}
    (h : List.Forall₂ (fun index path => setting.field index "before" = .ok path) indices paths)
    (request : Json) (contexts : List Json) (log : List Event) (counts : Counts)
    (rest : List Statement) :
    setting.run (entered request contexts log counts)
        (hooks .before contexts.length indices ++ rest) =
      match Surroundings.enter setting.behavior setting.rejection request paths contexts log
          counts with
      | .admitted contexts log counts => setting.run (entered request contexts log counts) rest
      | .rejected trace => trace := by
  induction h generalizing contexts log counts with
  | nil => rfl
  | @cons index path indices paths hi _ ih =>
    simp only [hooks, List.cons_append, run, runStatement, runBefore, hi, Surroundings.enter,
      Counts.add_self, entered]
    cases hb : setting.behavior log (.before path (counts path + 1) request) with
    | give context =>
      have hih := ih (contexts ++ [context]) (log ++ [.before path (counts path + 1) request])
        (counts.add path)
      rw [List.length_append, List.length_singleton] at hih
      simpa [Frame.record, entered, numbered_concat] using hih
    | fail failure => rfl

/-- Gathering finds the context of every position. -/
theorem run_gather (request : Json) (contexts : List Json) (log : List Event) (counts : Counts)
    (rest : List Statement) :
    setting.run (entered request contexts log counts) (.gather contexts.length :: rest) =
      setting.run { entered request contexts log counts with gathered := contexts } rest := by
  have hg : (List.range contexts.length).mapM (entered request contexts log counts).context =
      .ok contexts := by
    rw [mapM_eq_ok_iff]
    refine List.forall₂_iff_get.mpr ⟨by simp, fun i hi hj => ?_⟩
    have hlen : i < contexts.length := hj
    simp [Frame.context, entered, lookup_numbered, hlen]
  simp only [run, runStatement, hg]

/-- The body runs on the gathered contexts, and its failure is settled by the declared class. -/
theorem run_call {around : Surroundings} (hsupported : setting.Supported) {method error : String}
    {request : Json} {contexts : List Json}
    (hcallee : ∀ frame, setting.callee frame method = .ok method)
    (hcatches : ∀ frame : Frame, frame.contexts = numbered contexts → ∀ failure,
      setting.catches error frame failure = .ok ((around.declared error).catches failure))
    (log : List Event) (counts : Counts) (rest : List Statement) :
    setting.run { entered request contexts log counts with gathered := contexts }
        (.call method error :: rest) =
      let event := Event.body method contexts request
      match around.settle error (setting.behavior log event) with
      | .error failure => ⟨log ++ [event], .raised failure none, counts⟩
      | .ok outcome =>
        setting.run ⟨request, numbered contexts, contexts, some outcome, log ++ [event], counts⟩
          rest := by
  simp only [run, runStatement, runBody, hcallee, entered]
  cases ha : setting.behavior log (.body method contexts request) with
  | give value => rfl
  | fail failure =>
    have hcatch : setting.catches error (Frame.record
        ⟨request, numbered contexts, contexts, none, log, counts⟩ (.body method contexts request))
        failure = .ok ((around.declared error).catches failure) := hcatches _ rfl failure
    have hfailed : setting.failedOutcome failure =
        failure.toStatus.map fun status => .failed (.status status) := by
      rw [failedOutcome, hsupported.outcomes, hsupported.convert]
      cases failure.toStatus <;> rfl
    simp only [bodyFailed, Surroundings.settle, hcatch, hfailed]
    cases hdeclared : (around.declared error).catches failure with
    | false => rfl
    | true => cases failure.toStatus <;> rfl

/-- The hooks after a call run on the middlewares that the fields hold, each with the context of
its position. -/
theorem run_after {indices : List Int} {paths : List String}
    (h : List.Forall₂ (fun index path => setting.field index "after" = .ok path) indices paths)
    (frame : Frame) (outcome : Outcome) (ho : frame.outcome = some outcome)
    (before after : List Json)
    (hc : frame.contexts = numbered (before ++ after)) (hl : after.length = indices.length) :
    setting.run frame (hooks .after before.length indices ++ [.answer]) =
      ⟨(Surroundings.leave setting.behavior outcome (paths.zip after) frame.log).1,
        (Surroundings.leave setting.behavior outcome (paths.zip after) frame.log).2,
        frame.counts⟩ := by
  induction h generalizing frame before after with
  | nil =>
    obtain rfl : after = [] := by simpa using hl
    cases outcome <;> simp [hooks, run, runStatement, ho, Outcome.unwrap, Surroundings.leave,
      Answer.ofOutcome, Progress.fail, Frame.stop]
  | @cons index path indices paths hi _ ih =>
    obtain ⟨context, after, rfl⟩ := List.exists_cons_of_length_eq_add_one hl
    have hx : frame.context before.length = .ok context := by
      simp [Frame.context, hc, lookup_numbered]
    simp only [hooks, List.cons_append, run, runStatement, runAfter, hi, hx, ho,
      List.zip_cons_cons, Surroundings.leave]
    cases hb : setting.behavior frame.log (.after path context outcome) with
    | give _ =>
      have hih := ih (frame.record (.after path context outcome)) ho (before ++ [context]) after
        (by simpa [Frame.record] using hc) (by simpa using hl)
      rw [List.length_append, List.length_singleton] at hih
      exact hih
    | fail failure => rfl

/-- A method whose fields are found runs the hooks before the call, and the rest of its statements
when none of them rejects it. -/
theorem runMethod_eq_enter {rpc : Rpc} {paths : List String}
    (h : List.Forall₂ (fun index path => setting.field index "before" = .ok path) rpc.indices paths)
    (request : Json) (counts : Counts) :
    setting.runMethod rpc.wrapperMethod request counts =
      match Surroundings.enter setting.behavior setting.rejection request paths [] [] counts with
      | .admitted contexts log counts =>
        setting.run (entered request contexts log counts) rpc.inner
      | .rejected trace => trace := by
  have hrun := setting.run_before h request [] [] counts rpc.inner
  rw [List.length_nil, ← rpc.statements_eq] at hrun
  exact hrun

/-- A method whose fields, body and declared class are found does what it declares. -/
theorem runMethod_eq_call {around : Surroundings} (hsupported : setting.Supported)
    (herrors : around.errors = setting.errors) {rpc : Rpc} {paths : List String}
    (hbefore : List.Forall₂ (fun index path => setting.field index "before" = .ok path)
      rpc.indices paths)
    (hafter : List.Forall₂ (fun index path => setting.field index "after" = .ok path)
      rpc.indices paths)
    (hlength : rpc.middlewares.length = paths.length)
    (hcallee : ∀ frame, setting.callee frame rpc.name = .ok rpc.name)
    (hfinds : FindsClass setting.globals setting.wrapper paths.length rpc.error.name
      (around.declared rpc.error.name)) (request : Json) (counts : Counts) :
    setting.runMethod rpc.wrapperMethod request counts =
      around.call setting.behavior ⟨rpc.name, paths, rpc.error.name⟩ request counts := by
  rw [setting.runMethod_eq_enter hbefore, Surroundings.call, hsupported.rejection_eq herrors]
  cases he : Surroundings.enter setting.behavior around.rejection request paths [] [] counts with
  | rejected trace => rfl
  | admitted contexts log counts =>
    have hl : contexts.length = paths.length := by simpa using Surroundings.length_of_enter he
    have hcatches : ∀ frame : Frame, frame.contexts = numbered contexts → ∀ failure,
        setting.catches rpc.error.name frame failure =
          .ok ((around.declared rpc.error.name).catches failure) := by
      intro frame hframe
      refine FindsClass.catches_eq ?_ ?_
      · rw [hframe, length_numbered, hl]
        exact hfinds
      · rw [hframe]
        exact map_fst_numbered contexts
    simp only [Rpc.inner, hlength, ← hl, run_gather, setting.run_call hsupported hcallee hcatches]
    cases hs : around.settle rpc.error.name
      (setting.behavior log (.body rpc.name contexts request)) with
    | error failure => rfl
    | ok outcome =>
      exact setting.run_after hafter _ outcome rfl [] contexts rfl (hl.trans hafter.length_eq.symm)

end Setting

namespace Service

variable (service : Service) (names : List (String × Referent)) (errors : String → ErrorClass)
  (behavior : Behavior)

/-- What comes of calling a name that no method of a service has. No hook and no body runs in it. -/
def stray : String → Failure := (service.setting names errors fun _ _ => .give .null).callMember

/-- An index that is in step with the registry leads to the middleware of its path. -/
theorem field_setting {index : Int} {path : String}
    (h : ∃ position : Nat, index = position ∧ service.fields[position]? = some path)
    (hook : String) : (service.setting names errors behavior).field index hook = .ok path := by
  obtain ⟨position, rfl, hp⟩ := h
  have hl : (service.setting names errors behavior).attributes.lookup (fieldName position) =
    some (.middleware path) := service.lookup_attributes_fieldName hp
  simp [Setting.field, Setting.part, hl, bind, Except.bind]

/-- The hooks of a method in step with the registry are those of its own middlewares. -/
theorem fields_setting {rpc : Rpc} (h : rpc.InStep service.registry) (hook : String) :
    List.Forall₂ (fun index path =>
        (service.setting names errors behavior).field index hook = .ok path)
      rpc.indices (rpc.middlewares.map (·.path)) := by
  rw [List.forall₂_map_right_iff]
  exact h.imp fun _ _ hp => service.field_setting names errors behavior hp hook

end Service

section

variable {impl : ImplDef String} {service : Service} (h : impl.service = .ok service)
include h

/-- A name means no method to the block and to the wrapper, or it means the same method to both
unless a field of the wrapper hides it. -/
theorem method?_cases (name : String) :
    (impl.method? name = none ∧ service.method? name = none) ∨
      ∃ method rpc, impl.method? name = some method ∧
        service.method? name = (if (service.attributes.lookup name).isSome then none
          else some rpc.wrapperMethod) ∧
        method ∈ impl.methods ∧ method.Declares rpc ∧ rpc.InStep service.registry := by
  have hf := List.forall₂_reverse_iff.mpr (ImplDef.service_eq_ok h).2
  have hmap : service.wrapper.methods.reverse.find? (fun method => method.name = name) =
      (service.methods.reverse.find? fun rpc => rpc.name = name).map Rpc.wrapperMethod := by
    rw [Service.wrapper, ← List.map_reverse, List.find?_map]
    rfl
  rcases find?_of_forall₂ (p := fun method => decide (method.name = name))
      (q := fun rpc => decide (rpc.name = name)) hf (fun method rpc hr => by rw [hr.1.name])
    with ⟨hm, hs⟩ | ⟨method, rpc, hm, hs, hd, hstep⟩
  · refine Or.inl ⟨hm, ?_⟩
    simp [Service.method?, hmap, hs]
  · have hmem : method ∈ impl.methods := List.mem_reverse.mp (List.mem_of_find?_eq_some hm)
    refine Or.inr ⟨method, rpc, hm, ?_, hmem, hd, hstep⟩
    simp [Service.method?, hmap, hs]

/-- A name means the same method to the block and to the wrapper, or no method to both. -/
theorem method?_of_service (hreserved : ∀ method ∈ impl.methods, isReserved method.name = false)
    (name : String) :
    (impl.method? name = none ∧ service.method? name = none) ∨
      ∃ method rpc, impl.method? name = some method ∧
        service.method? name = some rpc.wrapperMethod ∧ method ∈ impl.methods ∧
        method.Declares rpc ∧ rpc.InStep service.registry := by
  rcases method?_cases h name with hnone | ⟨method, rpc, hm, hs, hmem, hd, hstep⟩
  · exact Or.inl hnone
  · have hname : method.name = name := by simpa using List.find?_some hm
    have hlookup : service.attributes.lookup name = none :=
      service.lookup_attributes_eq_none (hname ▸ hreserved method hmem)
    refine Or.inr ⟨method, rpc, hm, ?_, hmem, hd, hstep⟩
    simp [hs, hlookup]

/-- The methods of a block and of its service that stand at one position correspond. -/
theorem declares_of_mem_zip {method : MethodDef String} {rpc : Rpc}
    (hmem : (method, rpc) ∈ impl.methods.zip service.methods) :
    method ∈ impl.methods ∧ method.Declares rpc ∧ rpc.InStep service.registry := by
  have hf := List.forall₂_iff_zip.mp (ImplDef.service_eq_ok h).2
  exact ⟨(List.of_mem_zip hmem).1, hf.2 hmem⟩

/-- A grounded method of the wrapper does what the block declares. -/
theorem MethodDef.Grounded.runMethod_eq_call {method : MethodDef String} {rpc : Rpc}
    (hmem : method ∈ impl.methods) (hd : method.Declares rpc) (hstep : rpc.InStep service.registry)
    {names : List (String × Referent)} {around : Surroundings}
    (hg : method.Grounded impl (service.globals names) (around.declared method.errorName))
    (behavior : Behavior) (request : Json) (counts : Counts) :
    (service.setting names around.errors behavior).runMethod rpc.wrapperMethod request counts =
      around.call behavior method.declaration request counts := by
  have himplementor : service.implementor = impl.name := (ImplDef.service_eq_ok h).1
  have hcallee : ∀ frame, (service.setting names around.errors behavior).callee frame rpc.name =
      .ok rpc.name := by
    intro frame
    rw [hd.name]
    exact hg.callee_eq h hmem around.errors behavior frame
  have hfinds : FindsClass (service.setting names around.errors behavior).globals
      (service.setting names around.errors behavior).wrapper
      (rpc.middlewares.map (·.path)).length rpc.error.name (around.declared rpc.error.name) := by
    rw [hd.middlewares, hd.error]
    exact show FindsClass _ (wrapperName service.implementor) _ _ _ from himplementor ▸ hg.declared
  have hrun := (service.setting names around.errors behavior).runMethod_eq_call
    (service.supported_setting names around.errors behavior (himplementor ▸ hg.support)) rfl
    (service.fields_setting names around.errors behavior hstep "before")
    (service.fields_setting names around.errors behavior hstep "after") (List.length_map _).symm
    hcallee hfinds request counts
  rw [hrun, hd.name, hd.middlewares, hd.error]
  rfl

/-- A call on a grounded service's wrapper is what the block declares. -/
theorem runCall_eq_call {names : List (String × Referent)} {declared : String → ErrorClass}
    {server : Referent} (hg : impl.Grounded service names declared server)
    (errors : String → ErrorClass) (counts : Counts) (call : Call) :
    service.runCall names errors counts call =
      impl.call ⟨errors, declared, service.stray names errors⟩ counts call := by
  rcases method?_of_service h hg.unreserved call.method
    with ⟨hm, hs⟩ | ⟨method, rpc, hm, hs, hmem, hd, hstep⟩
  · rw [Service.runCall, ImplDef.call, hs, hm]
    rfl
  · let around : Surroundings := ⟨errors, declared, service.stray names errors⟩
    have hground : method.Grounded impl (service.globals names)
      (around.declared method.errorName) := hg.method hmem
    rw [Service.runCall, ImplDef.call, hs, hm]
    exact hground.runMethod_eq_call h hmem hd hstep call.behavior call.request counts

/-- A server is made around the wrapper of a grounded block from one middleware for each entry of
the registry, and running calls on the wrapper leaves the logs, the answers and the counts that the
block declares: every hook runs on the middleware whose path stands at its position. -/
theorem runCalls_eq_calls {names : List (String × Referent)} {declared : String → ErrorClass}
    {server : Referent} (hg : impl.Grounded service names declared server)
    (errors : String → ErrorClass) :
    service.serve names errors = .ok ⟨server, service.attributes⟩ ∧
      ∃ stray, ∀ counts calls, service.runCalls names errors counts calls =
        impl.calls ⟨errors, declared, stray⟩ counts calls := by
  refine ⟨hg.serve_eq h errors, service.stray names errors, fun counts calls => ?_⟩
  induction calls generalizing counts with
  | nil => rfl
  | cons call calls ih =>
    simp only [Service.runCalls, ImplDef.calls, ih, runCall_eq_call h hg errors]

end

/-- A method with some middlewares and an error. -/
def greeting (name : String) (paths : List String) (error : String) : MethodDef String where
  name
  params := [⟨"self", none, .none⟩, ⟨"env", none, .none⟩,
    ⟨"request", some ⟨"Req", [], .none⟩, .none⟩]
  result := some ⟨"Result", [⟨"Resp", [], .none⟩, ⟨error, [], .none⟩], .none⟩
  body := "pass"
  annotations := [⟨"middleware", some (paths.map fun path => ⟨.path, path, .none⟩), .none⟩]
  span := .none

/-- The method of a service that such a method becomes. -/
def greetingRpc (name : String) (paths : List String) (error : String) (indices : List Int) :
    Rpc where
  name
  request := ⟨"Req", [], .none⟩
  response := ⟨"Resp", [], .none⟩
  error := ⟨error, [], .none⟩
  middlewares := paths.map fun path => ⟨path, .none⟩
  indices
  params := (greeting name paths error).params
  body := "pass"
  span := .none

/-- What such a method becomes while its middlewares have no indices yet. -/
theorem rpc_greeting (name : String) (paths : List String) (error : String) :
    (greeting name paths error).rpc = .ok (greetingRpc name paths error []) := by
  have hlast : lastSegment "Result" = resultName := by decide +kernel
  have hresult : (greeting name paths error).resultTypes =
      .ok (⟨"Resp", [], .none⟩, ⟨error, [], .none⟩) := if_pos hlast
  have hsignature : (greeting name paths error).signature =
      .ok ⟨⟨"Req", [], .none⟩, ⟨"Resp", [], .none⟩, ⟨error, [], .none⟩⟩ :=
    bind_eq_ok_iff.mpr ⟨_, rfl, bind_eq_ok_iff.mpr ⟨_, hresult, rfl⟩⟩
  have hpaths : (paths.map fun path => (⟨.path, path, .none⟩ : Argument)).mapM
      Argument.middleware = .ok (paths.map (⟨·, .none⟩)) := mapM_map_eq_ok fun _ _ => rfl
  have hnote : (greeting name paths error).annotations.mapM Annotation.middlewares =
      .ok [paths.map (⟨·, .none⟩)] := mapM_eq_ok_iff.mpr (.cons hpaths .nil)
  have hmiddlewares : middlewaresOf (greeting name paths error).annotations =
      .ok (paths.map (⟨·, .none⟩)) := map_eq_ok_iff.mpr ⟨_, hnote, List.append_nil _⟩
  exact bind_eq_ok_iff.mpr ⟨_, hsignature, bind_eq_ok_iff.mpr ⟨_, hmiddlewares, rfl⟩⟩

/-- A block whose methods share a middleware, which one of them lists twice. -/
def greeter : ImplDef String where
  name := "Greeter"
  bases := []
  methods := [greeting "say_hello" ["Log", "Auth", "Log"] "ValueError",
    greeting "ping" ["Auth"] "ValueError"]
  annotations := [⟨"middleware_service",
    some [⟨.path, "Iface", .none⟩, ⟨.path, "serve", .none⟩], .none⟩]
  span := .none

/-- The service of the block: the registry is in the order of paths. -/
def greeterService : Service where
  implementor := "Greeter"
  bases := []
  methods := [greetingRpc "say_hello" ["Log", "Auth", "Log"] "ValueError" [1, 0, 1],
    greetingRpc "ping" ["Auth"] "ValueError" [0]]
  registry := [⟨"Auth", .none⟩, ⟨"Log", .none⟩]
  endpoint := ⟨"Iface", "serve"⟩

/-- The middlewares of the block in the order of paths. -/
theorem sort_greeter :
    Registry.sort [⟨"Log", .none⟩, ⟨"Auth", .none⟩] = greeterService.registry := by
  have hafter : MiddlewareRef.atMost ⟨"Log", .none⟩ ⟨"Auth", .none⟩ = false := by decide
  simp [Registry.sort, List.mergeSort, hafter, greeterService]

/-- The greeter has a service. -/
theorem service_greeter : greeter.service = .ok greeterService := by
  have hrpcs : greeter.methods.mapM MethodDef.rpc =
      .ok [greetingRpc "say_hello" ["Log", "Auth", "Log"] "ValueError" [],
        greetingRpc "ping" ["Auth"] "ValueError" []] :=
    mapM_eq_ok_iff.mpr (.cons (rpc_greeting ..) (.cons (rpc_greeting ..) .nil))
  refine ImplDef.service_eq_ok_iff.mpr ⟨rfl, rfl, by decide +kernel, _, hrpcs, ?_⟩
  exact Registry.build_eq_ok_iff.mpr ⟨sort_greeter.symm, by decide +kernel⟩

/-- A block of methods without middlewares has a service, whatever they are called and declare. -/
theorem service_greetings (name : String) (methods : List (String × String)) :
    ImplDef.service { greeter with
        name, methods := methods.map fun method => greeting method.1 [] method.2 } =
      .ok { greeterService with
        implementor := name
        methods := methods.map fun method => greetingRpc method.1 [] method.2 []
        registry := [] } := by
  have hendpoint : greeter.endpoint = .ok greeterService.endpoint := by decide +kernel
  have hnone : (methods.map fun method => greetingRpc method.1 [] method.2 []).flatMap
      (·.middlewares) = [] := by
    rw [List.flatMap_map]
    exact List.flatMap_eq_nil_iff.mpr fun _ _ => rfl
  have hresolve : Registry.resolve (methods.map fun method => greetingRpc method.1 [] method.2 [])
      [] = .ok (methods.map fun method => greetingRpc method.1 [] method.2 []) :=
    mapM_map_eq_ok fun _ _ => rfl
  refine ImplDef.service_eq_ok_iff.mpr ⟨rfl, rfl, hendpoint, _,
    mapM_map_eq_ok fun method _ => rpc_greeting method.1 [] method.2, ?_⟩
  refine Registry.build_eq_ok_iff.mpr ⟨?_, hresolve⟩
  rw [Registry.collect, hnone]
  exact List.mergeSort_nil.symm

/-- Hooks that give back what they count, and bodies that fail. -/
def counting : Behavior := fun _ event =>
  match event with
  | .before path count _ => .give (.str (path ++ "#" ++ toString count))
  | .body .. => .fail (.plain .value [])
  | .after .. => .give .null

/-- The names that the module of the block binds besides its own. -/
def greeterNames : List (String × Referent) :=
  [("Iface", .type "Iface" []), ("serve", .plain "function")]

/-- The names of the greeter mean what they say. -/
theorem grounded_greeter :
    greeter.Grounded greeterService greeterNames .known (.plain "function") where
  plain := by decide +kernel
  unreserved := by decide +kernel
  takes := by
    refine List.forall_mem_cons.mpr ⟨⟨rfl, by decide +kernel⟩, ?_⟩
    exact List.forall_mem_singleton.mpr ⟨rfl, by decide +kernel⟩
  support := by decide +kernel
  declared := by
    refine List.forall_mem_cons.mpr ⟨⟨rfl, by decide +kernel, by decide +kernel⟩, ?_⟩
    exact List.forall_mem_singleton.mpr ⟨rfl, by decide +kernel, by decide +kernel⟩
  serves := rfl
  callable := rfl
  free := by decide +kernel
  shared := by decide +kernel

theorem runCalls_greeter :
    greeterService.serve greeterNames (fun _ => .general) =
        .ok ⟨.plain "function", greeterService.attributes⟩ ∧
      ∃ stray, greeterService.runCalls greeterNames (fun _ => .general) .zero
          [⟨"say_hello", .null, counting⟩, ⟨"ping", .null, counting⟩] =
        greeter.calls ⟨fun _ => .general, .known, stray⟩ .zero
          [⟨"say_hello", .null, counting⟩, ⟨"ping", .null, counting⟩] := by
  obtain ⟨hserve, stray, hcalls⟩ :=
    runCalls_eq_calls service_greeter grounded_greeter fun _ => .general
  exact ⟨hserve, stray, hcalls _ _⟩

/-- A block whose method takes the name of a field of the wrapper. -/
def shadowed : ImplDef String := { greeter with methods := [greeting "md_0" ["Log"] "ValueError"] }

/-- The service of that block. -/
def shadowedService : Service :=
  { greeterService with
    methods := [greetingRpc "md_0" ["Log"] "ValueError" [0]], registry := [⟨"Log", .none⟩] }

/-- The block whose method takes the name of a field has a service. -/
theorem service_shadowed : shadowed.service = .ok shadowedService := by
  have hrpcs : shadowed.methods.mapM MethodDef.rpc =
      .ok [greetingRpc "md_0" ["Log"] "ValueError" []] :=
    mapM_eq_ok_iff.mpr (.cons (rpc_greeting ..) .nil)
  refine ImplDef.service_eq_ok_iff.mpr ⟨rfl, rfl, by decide +kernel, _, hrpcs, ?_⟩
  exact Registry.build_eq_ok_iff.mpr ⟨(List.mergeSort_singleton _).symm, by decide +kernel⟩

/-- A block whose method declares an error under the name of a variable. -/
def captured : ImplDef String :=
  { greeter with methods := [greeting "ping" [] "request.Bad"] }

/-- The service of that block. -/
def capturedService : Service :=
  { greeterService with methods := [greetingRpc "ping" [] "request.Bad" []], registry := [] }

/-- The block whose method declares an error under the name of a variable has a service. -/
theorem service_captured : captured.service = .ok capturedService :=
  service_greetings "Greeter" [("ping", "request.Bad")]

/-- Hooks and bodies that all fail. -/
def failing : Behavior := fun _ _ => .fail (.plain .value [])

/-- Without middlewares the failure of a body is raised, as it is or as the status that it becomes.
-/
theorem Surroundings.answer_failing (around : Surroundings) (body error : String) :
    (around.call failing ⟨body, [], error⟩ .null .zero).answer =
      .raised (if (around.declared error).catches (.plain .value [])
        then .status ⟨.unknown, "", .null⟩ else .plain .value []) none := by
  cases hcatch : (around.declared error).catches (.plain .value []) with
  | false =>
    simp only [call, enter, failing, settle, hcatch]
    rfl
  | true =>
    simp only [call, enter, failing, settle, hcatch]
    rfl

/-- Not every block is run as it declares, whatever its declared classes are: a call of a method
that takes the name of a field runs nothing, and an error under the name of a variable is not found.
-/
theorem not_runCalls_eq_calls :
    (shadowed.service = .ok shadowedService ∧
      (∀ method ∈ shadowed.methods, BeginsPlain method.name) ∧
      ∀ around, shadowedService.runCalls greeterNames (fun _ => .general) .zero
          [⟨"md_0", .null, failing⟩] ≠
        shadowed.calls around .zero [⟨"md_0", .null, failing⟩]) ∧
    (captured.service = .ok capturedService ∧
      (∀ method ∈ captured.methods, BeginsPlain method.name) ∧
      ∀ around, capturedService.runCalls greeterNames (fun _ => .general) .zero
          [⟨"ping", .null, failing⟩] ≠
        captured.calls around .zero [⟨"ping", .null, failing⟩]) := by
  refine ⟨⟨service_shadowed, by decide +kernel, fun around heq => ?_⟩,
    service_captured, by decide +kernel, fun around heq => ?_⟩
  · have hran : (shadowedService.runCalls greeterNames (fun _ => .general) .zero
        [⟨"md_0", .null, failing⟩]).map (·.log) = [[]] := by decide +kernel
    have hmeant : (shadowed.calls around .zero [⟨"md_0", .null, failing⟩]).map (·.log) =
        [[.before "Log" 1 .null]] := rfl
    rw [heq, hmeant] at hran
    simp at hran
  · have hran : (capturedService.runCalls greeterNames (fun _ => .general) .zero
        [⟨"ping", .null, failing⟩]).map (·.answer) =
          [.raised (.noAttribute "NoneType" "Bad") none] := by decide +kernel
    have hmeant : (captured.calls around .zero [⟨"ping", .null, failing⟩]).map (·.answer) =
        [.raised (if (around.declared "request.Bad").catches (.plain .value [])
          then .status ⟨.unknown, "", .null⟩ else .plain .value []) none] :=
      congrArg (fun answer => [answer]) (around.answer_failing "ping" "request.Bad")
    rw [heq, hmeant] at hran
    split at hran <;> simp at hran

end Interpose
