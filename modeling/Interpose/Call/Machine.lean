import Interpose.Call.Assembly
import Interpose.Call.Basic
import Interpose.Call.Scope

/-!
# Running wrappers

The statements of a wrapper's method run one after the other. They read and bind the variables of
the call, look up the names of the module that they use, and run the hooks of the middlewares that
the wrapper's fields hold and the bodies of the implementation. A failure that nothing catches ends
the call.
-/

namespace Interpose

/-- A body that an implementation holds. -/
structure Body where
  /-- The method whose body it is. -/
  method : String
  /-- The names of its parameters, the receiver's first. -/
  parameters : List String
  deriving DecidableEq, Repr

/-- The objects that a wrapper is put together from, and the names of the module around them. -/
structure Objects where
  /-- The name of the implementing class. -/
  implementor : String
  /-- The bodies that the implementation holds. -/
  bodies : List Body
  /-- The class of failures with which a middleware rejects calls. -/
  errors : String → ErrorClass
  /-- The names of the module. -/
  globals : List (String × Referent)

namespace Objects

/-- The class of the middlewares. -/
def middlewareClass : String := "Scripted"

/-- A middleware as an object. -/
def middlewareObject (objects : Objects) (path : String) : Referent :=
  .object middlewareClass ([("Error", .failures (objects.errors path)),
    ("before", .plain "method"), ("after", .plain "method")] ++ Referent.instanceMembers)

/-- The implementation as an object. -/
def implementorObject (objects : Objects) : Referent :=
  .object objects.implementor (objects.bodies.map (fun body =>
    (attributeWithin objects.implementor (bodyName body.method), .plain "method")) ++
    ("to_service_middleware", .plain "method") :: Referent.instanceMembers)

/-- What a wrapper is put together from as an object. -/
def partObject (objects : Objects) : Part → Referent
  | .implementation => objects.implementorObject
  | .middleware path => objects.middlewareObject path

end Objects

/-- What a wrapper runs with. -/
structure Setting extends Objects where
  /-- The name of the wrapper. -/
  wrapper : String
  /-- The fields of the wrapper, by name. -/
  attributes : List (String × Part)
  /-- How hooks and bodies act. -/
  behavior : Behavior

namespace Setting

/-- What a field of the wrapper holds, or the failure of looking for it. -/
def part (setting : Setting) (name : String) : Except Failure Part :=
  match setting.attributes.lookup name with
  | some part => .ok part
  | none => .error (.noAttribute setting.wrapper name)

/-- The middleware in a field whose hook is looked for, or the failure of looking for it. -/
def field (setting : Setting) (index : Int) (hook : String) : Except Failure String := do
  match ← setting.part (fieldName index) with
  | .middleware path => .ok path
  | .implementation => .error (.noAttribute setting.implementor hook)

/-- The body that stands under an attribute of the implementation, the last one if there are
several. -/
def bodyUnder? (setting : Setting) (name : String) : Option Body :=
  setting.bodies.reverse.find? fun body =>
    attributeWithin setting.implementor (bodyName body.method) = name

/-- The body that a wrapper's method finds for a name, or the failure of looking for it. -/
def body (setting : Setting) (method : String) : Except Failure Body := do
  let name := attributeWithin setting.wrapper (bodyName method)
  match ← setting.part implementationField with
  | .middleware _ => .error (.noAttribute Objects.middlewareClass name)
  | .implementation =>
    match setting.bodyUnder? name with
    | some held => .ok held
    | none => .error (.noAttribute setting.implementor name)

/-- The wrapper as an object. -/
def wrapperObject (setting : Setting) : Referent :=
  .object setting.wrapper
    ((setting.attributes.map fun (name, part) => (name, setting.partObject part)) ++
    (setting.bodies.map fun body => (body.method, .plain "method")) ++ Referent.instanceMembers)

/-- What a name of the module stands for that is no variable of a method. -/
def global (setting : Setting) (name : String) : Except Failure Referent :=
  (Scope.outside setting.globals).find name

end Setting

/-- The variables of a call and what it has done so far. -/
structure Frame where
  /-- The request. -/
  request : Json
  /-- The contexts that are bound, each with its position. -/
  contexts : List (Nat × Json)
  /-- The contexts that are gathered. -/
  gathered : List Json
  /-- The outcome of the body, once it ran. -/
  outcome : Option Outcome
  /-- What ran so far. -/
  log : List Event
  /-- The counts so far. -/
  counts : Counts

namespace Frame

/-- The variables of a call that begins. -/
def start (request : Json) (counts : Counts) : Frame := ⟨request, [], [], none, [], counts⟩

/-- The context at a position, or the failure of looking for it. -/
def context (frame : Frame) (position : Nat) : Except Failure Json :=
  match frame.contexts.lookup position with
  | some value => .ok value
  | none => .error (.noName (contextName position))

/-- The frame after something ran. -/
def record (frame : Frame) (event : Event) : Frame := { frame with log := frame.log ++ [event] }

/-- The trace of a call that ends with an answer. -/
def stop (frame : Frame) (answer : Answer) : Trace := ⟨frame.log, answer, frame.counts⟩

end Frame

/-- How a call goes on after a statement. -/
inductive Progress where
  /-- It goes on with the next statement. -/
  | next (frame : Frame)
  /-- It ends. -/
  | ended (frame : Frame) (answer : Answer)

/-- The call ends with a failure that has no other cause. -/
def Progress.fail (frame : Frame) (failure : Failure) : Progress :=
  .ended frame (.raised failure none)

namespace Setting

/-- The class of outcomes is found, and makes outcomes by a member of its own. -/
def outcomes (setting : Setting) (name : String) : Except Failure Unit := do
  (← setting.global outcomesName).makesOutcomes name

/-- The status that a failure becomes, or the failure of turning it into one. -/
def convert (setting : Setting) (failure : Failure) : Except Failure Status := do
  (← setting.global conversionName).convert failure

/-- The answer to a call that a hook before it rejects with a failure. A failure of the middleware's
class becomes a status; any other one is raised as it is. -/
def rejection (setting : Setting) (path : String) (failure : Failure) : Answer :=
  if (setting.errors path).catches failure then
    match setting.convert failure with
    | .ok status => .raised (.status status) (some failure)
    | .error refusal => .raised refusal none
  else .raised failure none

/-- Run the hook of a field before the call and bind what it returns. -/
def runBefore (setting : Setting) (frame : Frame) (position : Nat) (index : Int) : Progress :=
  match setting.field index "before" with
  | .error failure => .fail frame failure
  | .ok path =>
    let counts := frame.counts.add path
    let event := Event.before path (counts path) frame.request
    let after := { frame.record event with counts }
    match setting.behavior frame.log event with
    | .give value => .next { after with contexts := after.contexts ++ [(position, value)] }
    | .fail failure => .ended after (setting.rejection path failure)

/-- The names in scope where a method's call of its body fails. -/
def scope (setting : Setting) (frame : Frame) : Scope where
  within := setting.wrapper
  locals :=
    [("self", .ok setting.wrapperObject), ("request", .ok (.ofJson frame.request)),
     ("envs", .ok (.tuple (frame.gathered.map .ofJson))), ("ret", .error (.unbound "ret")),
     ("exc", .error (.unbound "exc"))] ++
    frame.contexts.map fun (position, value) => (contextName position, .ok (.ofJson value))
  globals := setting.globals

/-- Whether what a declared name stands for catches a failure of the body. -/
def catches (setting : Setting) (error : String) (frame : Frame) (failure : Failure) :
    Except Failure Bool := do
  (← (setting.scope frame).evaluate error).catches failure

/-- The status that a failure of the body becomes as part of an outcome. -/
def failedOutcome (setting : Setting) (failure : Failure) : Except Failure Outcome := do
  setting.outcomes "err"
  return .failed (.status (← setting.convert failure))

/-- How a call goes on when its body fails. A failure of the declared class becomes a status and
is the outcome; any other one is raised as it is. The declared name is looked up only now. -/
def bodyFailed (setting : Setting) (error : String) (frame : Frame) (failure : Failure) :
    Progress :=
  match setting.catches error frame failure with
  | .error fault => .fail frame fault
  | .ok false => .fail frame failure
  | .ok true =>
    match setting.failedOutcome failure with
    | .ok outcome => .next { frame with outcome := some outcome }
    | .error refusal => .fail frame refusal

/-- The body that is called for a method, or the failure of calling it. The class of outcomes and
the body are found, and the gathered contexts and the request are bound to the parameters of the
body behind its receiver. -/
def callee (setting : Setting) (frame : Frame) (method : String) : Except Failure String := do
  setting.outcomes "ok"
  let held ← setting.body method
  let _ ← bindArguments (setting.implementor ++ "." ++ bodyName held.method) 1
    (held.parameters.tail.map (attributeWithin setting.implementor))
    [.arr frame.gathered, frame.request]
  return held.method

/-- Run the body of a method on the gathered contexts and keep its outcome. -/
def runBody (setting : Setting) (frame : Frame) (method error : String) : Progress :=
  match setting.callee frame method with
  | .error failure => setting.bodyFailed error frame failure
  | .ok held =>
    let event := Event.body held frame.gathered frame.request
    let after := frame.record event
    match setting.behavior frame.log event with
    | .give value => .next { after with outcome := some (.returned value) }
    | .fail failure => setting.bodyFailed error after failure

/-- Run the hook of a field after the call on a context and the outcome. -/
def runAfter (setting : Setting) (frame : Frame) (position : Nat) (index : Int) : Progress :=
  match setting.field index "after", frame.context position, frame.outcome with
  | .error failure, _, _ => .fail frame failure
  | _, .error failure, _ => .fail frame failure
  | _, _, none => .fail frame (.unbound "ret")
  | .ok path, .ok context, some outcome =>
    let event := Event.after path context outcome
    let after := frame.record event
    match setting.behavior frame.log event with
    | .give _ => .next after
    | .fail failure => .fail after failure

/-- Run a statement. -/
def runStatement (setting : Setting) (frame : Frame) : Statement → Progress
  | .before position index => setting.runBefore frame position index
  | .gather count =>
    match (List.range count).mapM frame.context with
    | .ok gathered => .next { frame with gathered }
    | .error failure => .fail frame failure
  | .call method error => setting.runBody frame method error
  | .after position index => setting.runAfter frame position index
  | .answer =>
    match frame.outcome.map Outcome.unwrap with
    | none => .fail frame (.unbound "ret")
    | some (.ok value) => .ended frame (.value value)
    | some (.error failure) => .fail frame failure

/-- Run statements up to the one that ends the call. -/
def run (setting : Setting) (frame : Frame) : List Statement → Trace
  | [] => frame.stop (.value .null)
  | statement :: statements =>
    match setting.runStatement frame statement with
    | .next frame => setting.run frame statements
    | .ended frame answer => frame.stop answer

/-- What comes of calling what is no method of the wrapper. -/
def callMember (setting : Setting) (name : String) : Failure :=
  match setting.wrapperObject.member name with
  | .ok referent => .notCallable referent.owner
  | .error failure => failure

/-- Run a method of a wrapper. -/
def runMethod (setting : Setting) (method : WrapperMethod) (request : Json) (counts : Counts) :
    Trace :=
  setting.run (.start request counts) method.statements

end Setting

end Interpose
