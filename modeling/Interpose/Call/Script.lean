import Interpose.Call.Machine
import Interpose.Generate

/-!
# Scripted calls

An implementation makes a server around its wrapper, in a module with some names. The wrapper runs
calls one after the other, and the counts of its middlewares go on from call to call. A script says
how the hooks and the body of one call act. The wrapper itself is that of a block written from a
list of methods.
-/

namespace Interpose

/-- A call and how hooks and body act in it. -/
structure Script where
  /-- The method that is called. -/
  method : String
  /-- The request. -/
  request : Json
  /-- How hooks before the call act, by path. -/
  before : List (String × Act)
  /-- How the body acts. -/
  body : Option Act
  /-- How hooks after the call act, by path. -/
  after : List (String × Act)
  deriving DecidableEq, Repr

/-- How hooks and body act by a script. A hook before the call that the script leaves out returns
a text that no other hook returns; everything else that it leaves out returns null. -/
def Script.behavior (script : Script) : Behavior := fun _ event =>
  match event with
  | .before path count _ =>
    (script.before.lookup path).getD (.give (.str (path ++ "#" ++ toString count)))
  | .body .. => script.body.getD (.give .null)
  | .after path .. => (script.after.lookup path).getD (.give .null)

/-- A script as a call. -/
def Script.call (script : Script) : Call := ⟨script.method, script.request, script.behavior⟩

/-- The names of the module that a service is generated into: its own classes, the names of the
support package, and whatever else the module binds, such as what its imports bring. -/
def Service.globals (service : Service) (names : List (String × Referent)) :
    List (String × Referent) :=
  [(service.implementor, .type service.implementor ("to_service_middleware" ::
      service.methods.map fun rpc => attributeWithin service.implementor (bodyName rpc.name))),
   (wrapperName service.implementor, .type (wrapperName service.implementor)
      (service.methods.map (·.name))),
   (outcomesName, .outcomes), (conversionName, .conversion)] ++ names ++
  [("annotations", .plain "_Feature")]

/-- What a service's wrapper is put together from, in a module that binds some names. -/
def Service.objects (service : Service) (names : List (String × Referent))
    (errors : String → ErrorClass) : Objects where
  implementor := service.implementor
  bodies := service.methods.map fun rpc => ⟨rpc.name, rpc.params.map (·.name)⟩
  errors
  globals := service.globals names

/-- What a service's wrapper runs with. -/
def Service.setting (service : Service) (names : List (String × Referent))
    (errors : String → ErrorClass) (behavior : Behavior) : Setting where
  toObjects := service.objects names errors
  wrapper := wrapperName service.implementor
  attributes := service.attributes
  behavior

/-- A server and the fields of the wrapper that it is made around. -/
structure Served where
  /-- What makes the server. -/
  server : Referent
  /-- The fields of the wrapper. -/
  fields : List (String × Part)

/-- The names in scope in a method of the implementing class with some variables. -/
def Objects.scope (objects : Objects) (locals : List (String × Part)) : Scope where
  within := objects.implementor
  locals := locals.map fun (name, part) => (name, .ok (objects.partObject part))
  globals := objects.globals

/-- What the method of an implementing class does that makes a server from some middlewares. It
binds them to its parameters, finds the server's constructor and the class of the wrapper, makes
the wrapper and calls the constructor on it. -/
def Implementor.serve (implementor : Implementor) (wrapper : Wrapper) (objects : Objects)
    (middlewares : List String) : Except Failure Served := do
  let locals ← bindArguments (implementor.name ++ ".to_service_middleware") 0
    implementor.parameters (.implementation :: middlewares.map Part.middleware)
  let scope := objects.scope locals
  let server ← scope.find (attributeWithin implementor.name implementor.server)
  match ← scope.find (attributeWithin implementor.name implementor.wrapper) with
  | .type .. =>
    let fields ← wrapper.init (← implementor.passed.mapM (readVariable locals))
    server.callable
    return ⟨server, fields⟩
  | other => throw (.notCallable other.owner)

/-- The server of a service, made from one middleware for each entry of the registry. -/
def Service.serve (service : Service) (names : List (String × Referent))
    (errors : String → ErrorClass) : Except Failure Served :=
  service.implementorClass.serve service.wrapper (service.objects names errors) service.fields

/-- The method that a service's wrapper has under a name: the last one of that name, unless a field
of the wrapper hides it. -/
def Service.method? (service : Service) (name : String) : Option WrapperMethod :=
  if (service.attributes.lookup name).isSome then none
  else service.wrapper.methods.reverse.find? fun method => method.name = name

/-- Run a call on a service's wrapper. -/
def Service.runCall (service : Service) (names : List (String × Referent))
    (errors : String → ErrorClass) (counts : Counts) (call : Call) : Trace :=
  let setting := service.setting names errors call.behavior
  match service.method? call.method with
  | some method => setting.runMethod method call.request counts
  | none => ⟨[], .raised (setting.callMember call.method) none, counts⟩

/-- Run calls one after the other on a service's wrapper. -/
def Service.runCalls (service : Service) (names : List (String × Referent))
    (errors : String → ErrorClass) : Counts → List Call → List Trace
  | _, [] => []
  | counts, call :: calls =>
    let trace := service.runCall names errors counts call
    trace :: service.runCalls names errors trace.counts calls

/-- Run scripts one after the other on a service's wrapper. -/
def Service.runScripts (service : Service) (names : List (String × Referent))
    (errors : String → ErrorClass) (counts : Counts) (scripts : List Script) : List Trace :=
  service.runCalls names errors counts (scripts.map Script.call)

/-- A method of a block to be written. -/
structure MethodSketch where
  /-- Its name. -/
  name : String
  /-- The paths of its middlewares. -/
  middlewares : List String
  /-- The name of the class of errors that it declares. -/
  error : String
  deriving DecidableEq, Repr

/-- The lines of a method. -/
def MethodSketch.lines (method : MethodSketch) : List String :=
  (if method.middlewares.isEmpty then []
    else ["@" ++ middlewareAnnotation ++ "(" ++ ", ".intercalate method.middlewares ++ ")"]) ++
  ["rpc " ++ method.name ++ "(self, env, request: Req) -> Result[Resp, " ++ method.error ++
    "] \x60\x60\x60return await body(" ++ Text.quoted method.name ++
    ", env, request)\x60\x60\x60"]

/-- The definition of a service with some methods. -/
def sketchText (methods : List MethodSketch) : String :=
  textOfLines (["@" ++ serviceAnnotation ++ "(Iface, serve)", "impl Impl \x7b"] ++
    methods.flatMap MethodSketch.lines ++ ["\x7d"])

/-- The services of the definition with some methods. -/
def sketchedServices (methods : List MethodSketch) : Except Fault (List Service) :=
  (ServiceFile.ofText (sketchText methods)).map (·.services)

/-- An event as it is logged, where each body reports a name of its own. -/
def Event.reporting (reported : String → String) : Event → Event
  | .body method contexts request => .body (reported method) contexts request
  | event => event

/-- The names that the definition of sketched methods refers to. -/
def sketchNames : List (String × Referent) :=
  [("Iface", .type "Iface" []), ("serve", .plain "function"), ("body", .plain "function"),
   (ErrorClass.status.name, .failures .status), (ErrorClass.customAlias, .failures .custom)]

/-- Run scripts on a service that is made of sketches. The body of a method reports the name as
its sketch writes it, blanks and comments included. -/
def Service.runSketched (service : Service) (methods : List MethodSketch)
    (errors : String → ErrorClass) (scripts : List Script) : List Trace :=
  let names := (service.methods.map (·.name)).zip (methods.map (·.name))
  let reported (name : String) : String := (names.lookup name).getD name
  (service.runScripts sketchNames errors .zero scripts).map fun trace =>
    { trace with log := trace.log.map (Event.reporting reported) }

end Interpose
