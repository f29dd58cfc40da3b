import Interpose.Call.Script
import Interpose.Proofs.Call.Direct
import Interpose.Proofs.Wrapper.Assembly
import Interpose.Proofs.Wrapper.Names

/-!
# Names that mean what a block declares

A wrapper's method uses names: those of the support package, the name of a body, and the dotted name
of the class of failures that its definition declares. It looks them up between the variables of a
call and inside a class that takes private names for itself. `FindsClass`, `MethodDef.Grounded` and
`ImplDef.Grounded` say when these names mean what they mean outside of the class, and the lemmas
here say what is found then.
-/

namespace Interpose

/-! ## Names that no variable captures -/

/-- The variables of a wrapper's method with some middlewares. -/
def methodVariables (count : Nat) : List String :=
  ["self", "request", "envs", "ret", "exc"] ++ (List.range count).map contextName

/-- A wrapper's method finds a class of failures where its definition has it: the module has it
under the dotted name, no variable of the method captures the name, and the wrapper's class takes no
segment of it for itself. -/
structure FindsClass (globals : List (String × Referent)) (className : String) (count : Nat)
    (path : String) (errors : ErrorClass) : Prop where
  /-- The module has the class. -/
  stands : (Scope.outside globals).evaluate path = .ok (.failures errors)
  /-- The name does not begin with a variable of the method. -/
  free : ∀ first ∈ (Scope.segments path.toList).head?,
    String.ofList first ∉ methodVariables count
  /-- No segment is private to the wrapper. -/
  shared : ∀ segment ∈ Scope.segments path.toList,
    attributeWithin className (String.ofList segment) = String.ofList segment

/-- Outside of all classes a name stands for itself. -/
@[simp] theorem attributeWithin_empty (name : String) : attributeWithin "" name = name := by
  simp [attributeWithin, nameWithin]

namespace Scope

/-- A name that is no variable means what it means in the module. -/
theorem find_eq_outside {scope : Scope} {name : String}
    (h : name ∉ scope.locals.map Prod.fst) :
    scope.find name = (outside scope.globals).find name := by
  have hlocal : scope.locals.lookup name = none := by
    refine List.lookup_eq_none_iff.mpr fun entry hentry => bne_iff_ne.mpr ?_
    rintro rfl
    exact h (List.mem_map.mpr ⟨entry, hentry, rfl⟩)
  simp [find, outside, hlocal]

/-- A dotted name that neither a variable nor the class around it captures means what it means in
the module. -/
theorem evaluate_eq_outside {scope : Scope} {path : String}
    (hfree : ∀ first ∈ (segments path.toList).head?,
      String.ofList first ∉ scope.locals.map Prod.fst)
    (hshared : ∀ segment ∈ segments path.toList,
      attributeWithin scope.within (String.ofList segment) = String.ofList segment) :
    scope.evaluate path = (outside scope.globals).evaluate path := by
  have hinside : (segments path.toList).map
      (fun cs => attributeWithin scope.within (String.ofList cs)) =
        (segments path.toList).map String.ofList := List.map_congr_left hshared
  simp only [evaluate, hinside]
  simp only [outside, attributeWithin_empty]
  cases hsegments : segments path.toList with
  | nil => rfl
  | cons first rest =>
    have hfirst : scope.find (String.ofList first) =
        (outside scope.globals).find (String.ofList first) :=
      find_eq_outside (hfree first (by simp [hsegments]))
    simp only [List.map_cons, hfirst, outside]

end Scope

/-! ## What a wrapper finds -/

section

variable {setting : Setting}

/-- In a call all of whose hooks before the body returned, the body's failure is caught as the
declared class catches it. -/
theorem FindsClass.catches_eq {path : String} {errors : ErrorClass} {frame : Frame}
    (h : FindsClass setting.globals setting.wrapper frame.contexts.length path errors)
    (hcontexts : frame.contexts.map Prod.fst = List.range frame.contexts.length)
    (failure : Failure) :
    setting.catches path frame failure = .ok (errors.catches failure) := by
  have hlocals : (setting.scope frame).locals.map Prod.fst =
      methodVariables frame.contexts.length := by
    rw [methodVariables, ← hcontexts, List.map_map, Setting.scope, List.map_append, List.map_map]
    rfl
  have hfree : ∀ first ∈ (Scope.segments path.toList).head?,
      String.ofList first ∉ (setting.scope frame).locals.map Prod.fst := by
    rw [hlocals]
    exact h.free
  have hevaluate : (setting.scope frame).evaluate path = .ok (.failures errors) :=
    (Scope.evaluate_eq_outside hfree h.shared).trans h.stands
  rw [Setting.catches, hevaluate]
  rfl

end

/-- The names of the support package stand for what it gives. -/
structure Setting.Supported (setting : Setting) : Prop where
  /-- The class of outcomes makes outcomes. -/
  outcomes : ∀ name, setting.outcomes name = .ok ()
  /-- Failures are converted as they convert themselves. -/
  convert : ∀ failure, setting.convert failure = failure.toStatus

/-- A wrapper with the names of the support package rejects calls as middlewares declare. -/
theorem Setting.Supported.rejection_eq {setting : Setting} (h : setting.Supported)
    {around : Surroundings} (herrors : around.errors = setting.errors) :
    setting.rejection = around.rejection := by
  funext path failure
  cases hstatus : failure.toStatus with
  | ok status => simp [Setting.rejection, Surroundings.rejection, herrors, h.convert, hstatus]
  | error refusal => simp [Setting.rejection, Surroundings.rejection, herrors, h.convert, hstatus]

/-- The name of every wrapper holds a capital letter that few other names hold. -/
theorem capital_mem_wrapperName (implementor : String) :
    'W' ∈ (wrapperName implementor).toList := by
  simp [wrapperName]

/-- The name of no wrapper is one of the parameters of the method that makes it. -/
theorem wrapperName_notMem_parameters (implementor : String) (count : Nat) :
    wrapperName implementor ∉ receiver :: fieldNames count := by
  intro hmem
  have hcapital := capital_mem_wrapperName implementor
  rcases List.mem_cons.mp hmem with hself | hfield
  · rw [hself] at hcapital
    revert hcapital
    decide
  · obtain ⟨n, _, hname⟩ := mem_fieldNames.mp hfield
    rw [← hname, fieldName_natCast, String.toList_append] at hcapital
    rcases List.mem_append.mp hcapital with hfront | hdigit
    · simp [fieldFront] at hfront
    · exact absurd (isDigit_of_mem_toString hdigit) (by decide)

/-- The names that a module takes from the support package. -/
def supportNames : List String := [outcomesName, conversionName]

namespace Service

variable (service : Service) (names : List (String × Referent)) (errors : String → ErrorClass)
  (behavior : Behavior)

/-- A service whose class takes no name of the support package runs with these names. -/
theorem supported_setting (h : service.implementor ∉ supportNames) :
    (service.setting names errors behavior).Supported := by
  have hwrapper : wrapperName service.implementor ∉ supportNames := by
    intro hmem
    have hnone : ∀ other ∈ supportNames, 'W' ∉ other.toList := by decide +kernel
    exact hnone _ hmem (capital_mem_wrapperName _)
  simp only [supportNames, List.mem_cons, List.not_mem_nil, or_false, not_or] at h hwrapper
  have houtcomes : (service.setting names errors behavior).global outcomesName = .ok .outcomes := by
    simp [Setting.global, setting, objects, globals, Scope.find, Scope.outside, List.lookup_cons,
      beq_eq_false_iff_ne.mpr (Ne.symm h.1), beq_eq_false_iff_ne.mpr (Ne.symm hwrapper.1)]
  have hconversion : (service.setting names errors behavior).global conversionName =
      .ok .conversion := by
    have hne : (conversionName == outcomesName) = false := by decide
    simp [Setting.global, setting, objects, globals, Scope.find, Scope.outside, List.lookup_cons,
      beq_eq_false_iff_ne.mpr (Ne.symm h.2), beq_eq_false_iff_ne.mpr (Ne.symm hwrapper.2), hne]
  refine ⟨fun name => ?_, fun failure => ?_⟩
  · rw [Setting.outcomes, houtcomes]
    rfl
  · rw [Setting.convert, hconversion]
    rfl

/-- Where an implementing class has bound the parameters of the method that makes the wrapper, any
other name means what it means in the module. -/
theorem find_scope {name : String} (h : name ∉ receiver :: fieldNames service.registry.length) :
    ((service.objects names errors).scope (service.implementorClass.parameters.zip
      (Part.implementation :: service.fields.map Part.middleware))).find name =
        (Scope.outside (service.globals names)).find name := by
  refine Scope.find_eq_outside ?_
  have hkeys : (service.implementorClass.parameters.zip
      (Part.implementation :: service.fields.map Part.middleware)).map Prod.fst =
        receiver :: fieldNames service.registry.length := by
    rw [List.map_fst_zip (by simp [Implementor.parameters, implementorClass, fields])]
    simp [Implementor.parameters, implementorClass, fields]
  intro hmem
  obtain ⟨entry, hentry, rfl⟩ := List.mem_map.mp hmem
  obtain ⟨⟨key, part⟩, hbound, rfl⟩ := List.mem_map.mp hentry
  exact h (hkeys ▸ List.mem_map.mpr ⟨(key, part), hbound, rfl⟩)

/-- A module has the class of a service's wrapper. -/
theorem find_wrapperName : (Scope.outside (service.globals names)).find
    (wrapperName service.implementor) =
      .ok (.type (wrapperName service.implementor) (service.methods.map (·.name))) := by
  have hne : (wrapperName service.implementor == service.implementor) = false := by
    refine beq_eq_false_iff_ne.mpr fun heq => ?_
    have hlength := congrArg (·.toList.length) heq
    simp [wrapperName] at hlength
  simp [Scope.find, Scope.outside, globals, List.lookup_cons, hne]

end Service

/-! ## Bodies that a wrapper can call -/

/-- A body that a wrapper can call: behind its receiver it takes the contexts and the request, and
the names of its parameters are distinct. -/
structure MethodDef.TakesCall (method : MethodDef String) (className : String) : Prop where
  /-- It has a receiver and two other parameters. -/
  three : method.params.length = 3
  /-- No two parameters have one name. -/
  distinct : (method.params.map fun param => attributeWithin className param.name).Nodup

/-- A method of a block in a module with some names, whose wrapper's method runs its body and
catches the class of failures that it declares. -/
structure MethodDef.Grounded (method : MethodDef String) (impl : ImplDef String)
    (globals : List (String × Referent)) (errors : ErrorClass) : Prop where
  /-- Its body is private to no class. -/
  plain : BeginsPlain method.name
  /-- No body of another name takes the place of its own. -/
  own : ∀ other ∈ impl.methods,
    attributeWithin impl.name (bodyName other.name) = bodyName method.name →
    other.name = method.name
  /-- A body of its name can be called. -/
  takes : ∀ other ∈ impl.methods, other.name = method.name → other.TakesCall impl.name
  /-- The block takes no name of the support package. -/
  support : impl.name ∉ supportNames
  /-- The class that it declares is found. -/
  declared : FindsClass globals (wrapperName impl.name) method.middlewarePaths.length
    method.errorName errors

/-- A block in a module with some names, all of whose methods are grounded and whose server is found
where the wrapper is made. -/
structure ImplDef.Grounded (impl : ImplDef String) (service : Service)
    (names : List (String × Referent)) (declared : String → ErrorClass) (server : Referent) :
    Prop where
  /-- Bodies are private to no class. -/
  plain : ∀ method ∈ impl.methods, BeginsPlain method.name
  /-- No method has a name that definitions reserve. -/
  unreserved : ∀ method ∈ impl.methods, isReserved method.name = false
  /-- All bodies can be called. -/
  takes : ∀ method ∈ impl.methods, method.TakesCall impl.name
  /-- The block takes no name of the support package. -/
  support : impl.name ∉ supportNames
  /-- All declared classes are found. -/
  declared : ∀ method ∈ impl.methods, FindsClass (service.globals names) (wrapperName impl.name)
    method.middlewarePaths.length method.errorName (declared method.errorName)
  /-- The module has the server, -/
  serves : (Scope.outside (service.globals names)).find service.endpoint.server = .ok server
  /-- which can be called. -/
  callable : server.callable = .ok ()
  /-- Its name is no parameter of the method that calls it. -/
  free : service.endpoint.server ∉ receiver :: fieldNames service.registry.length
  /-- Neither its name nor that of the wrapper is private to the block's class. -/
  shared : ∀ name ∈ [service.endpoint.server, wrapperName impl.name],
    attributeWithin impl.name name = name

/-- All methods of a grounded block are grounded: different bodies have different names. -/
theorem ImplDef.Grounded.method {impl : ImplDef String} {service : Service}
    {names : List (String × Referent)} {declared : String → ErrorClass} {server : Referent}
    (h : impl.Grounded service names declared server) {method : MethodDef String}
    (hmem : method ∈ impl.methods) :
    method.Grounded impl (service.globals names) (declared method.errorName) where
  plain := h.plain method hmem
  own other hother hname := by
    rw [attributeWithin_bodyName (h.plain other hother)] at hname
    exact bodyName_injective hname
  takes other hother _ := h.takes other hother
  support := h.support
  declared := h.declared method hmem

section

variable {impl : ImplDef String} {service : Service} (h : impl.service = .ok service)
  {names : List (String × Referent)}
include h

/-- An implementation holds the bodies of its block. -/
theorem ImplDef.bodies_of_service (errors : String → ErrorClass) :
    (service.objects names errors).bodies =
      impl.methods.map fun method => ⟨method.name, method.params.map (·.name)⟩ :=
  map_eq_of_forall₂ ((keeps_of_service h).imp fun method rpc hkept => by
    rw [hkept.name, hkept.params])

/-- A grounded method calls its own body. -/
theorem MethodDef.Grounded.callee_eq {method : MethodDef String} (hmem : method ∈ impl.methods)
    {declared : ErrorClass} (hg : method.Grounded impl (service.globals names) declared)
    (errors : String → ErrorClass) (behavior : Behavior) (frame : Frame) :
    (service.setting names errors behavior).callee frame method.name = .ok method.name := by
  have himplementor := (ImplDef.service_eq_ok h).1
  have hsupported := service.supported_setting names errors behavior (himplementor ▸ hg.support)
  have hfield : (service.setting names errors behavior).part implementationField =
      .ok .implementation := by
    have hlookup : (service.setting names errors behavior).attributes.lookup implementationField =
      some .implementation := service.lookup_attributes_implementationField
    rw [Setting.part, hlookup]
  have hbodies : (service.objects names errors).bodies = _ := ImplDef.bodies_of_service h errors
  -- The method's own body stands under the name, and so does the one that is found.
  have hsome : ((service.setting names errors behavior).bodyUnder?
      (bodyName method.name)).isSome := by
    rw [Setting.bodyUnder?, List.find?_isSome]
    refine ⟨⟨method.name, method.params.map (·.name)⟩, List.mem_reverse.mpr ?_, ?_⟩
    · exact hbodies ▸ List.mem_map.mpr ⟨method, hmem, rfl⟩
    · simp [attributeWithin_bodyName hg.plain]
  obtain ⟨held, hheld⟩ := Option.isSome_iff_exists.mp hsome
  have hunder : attributeWithin service.implementor (bodyName held.method) =
      bodyName method.name := by
    have hfound := List.find?_some hheld
    exact of_decide_eq_true hfound
  have hin : held ∈ (service.objects names errors).bodies :=
    List.mem_reverse.mp (List.mem_of_find?_eq_some hheld)
  rw [hbodies] at hin
  obtain ⟨other, hother, rfl⟩ := List.mem_map.mp hin
  have hsame := hg.own other hother (himplementor ▸ hunder)
  have hthree := (hg.takes other hother hsame).three
  have hbody : (service.setting names errors behavior).body method.name =
      .ok ⟨other.name, other.params.map (·.name)⟩ := by
    simp only [Setting.body, attributeWithin_bodyName hg.plain, hfield, hheld]
    rfl
  have hlength : ((other.params.map (·.name)).tail.map
      (attributeWithin service.implementor)).length =
        [Json.arr frame.gathered, frame.request].length := by simp [hthree]
  have hbind := bindArguments_eq hlength (service.implementor ++ "." ++ bodyName other.name) 1
  refine bind_eq_ok_iff.mpr ⟨(), hsupported.outcomes "ok", bind_eq_ok_iff.mpr ⟨_, hbody, ?_⟩⟩
  exact bind_eq_ok_iff.mpr ⟨_, hbind, congrArg Except.ok hsame⟩

/-- The server of a grounded block is made around its wrapper, which holds one middleware for each
entry of the registry. -/
theorem ImplDef.Grounded.serve_eq {declared : String → ErrorClass} {server : Referent}
    (hg : impl.Grounded service names declared server) (errors : String → ErrorClass) :
    service.serve names errors = .ok ⟨server, service.attributes⟩ := by
  have himplementor : service.implementor = impl.name := (ImplDef.service_eq_ok h).1
  have hl : service.implementorClass.fields.length = service.fields.length := rfl
  have hlength : service.implementorClass.parameters.length =
      (Part.implementation :: service.fields.map Part.middleware).length := by
    simp [Implementor.parameters, hl]
  have hbind := bindArguments_eq hlength (service.implementor ++ ".to_service_middleware") 0
  have hread := Implementor.mapM_passed_eq hl
  have hserver := hg.shared service.endpoint.server List.mem_cons_self
  have hwrapper := hg.shared (wrapperName impl.name) (List.mem_cons_of_mem _ List.mem_cons_self)
  rw [← himplementor] at hserver hwrapper
  have hserves := (service.find_scope names errors hg.free).trans hg.serves
  have hclass := (service.find_scope names errors
    (wrapperName_notMem_parameters service.implementor _)).trans (service.find_wrapperName names)
  rw [← hserver] at hserves
  rw [← hwrapper] at hclass
  refine bind_eq_ok_iff.mpr ⟨_, hbind, bind_eq_ok_iff.mpr ⟨server, hserves,
    bind_eq_ok_iff.mpr ⟨_, hclass, bind_eq_ok_iff.mpr ⟨_, hread, ?_⟩⟩⟩⟩
  exact bind_eq_ok_iff.mpr ⟨_, service.init_wrapper_eq, bind_eq_ok_iff.mpr ⟨(), hg.callable, rfl⟩⟩

end

end Interpose
