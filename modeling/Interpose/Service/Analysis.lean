import Interpose.Service.Registry

/-!
# From blocks to services

A service block becomes a service when it has one service annotation with two paths, when every
method takes a typed request and returns a response or an error, and when its middleware
annotations list paths. Annotations with other names say nothing here.
-/

namespace Interpose

/-- The name that a result type ends in. -/
def resultName : String := "Result"

/-- The types in the signature of a method. -/
structure Signature where
  /-- The type of the request. -/
  request : TypeExpr
  /-- The type of the response. -/
  response : TypeExpr
  /-- The type of the declared errors. -/
  error : TypeExpr
  deriving DecidableEq, Repr

variable {Body : Type}

namespace MethodDef

/-- The type of a method's request, the parameter after the receiver and the environment. -/
def requestType (method : MethodDef Body) : Except Fault TypeExpr :=
  match method.params with
  | _ :: _ :: request :: _ =>
    match request.type with
    | some type => .ok type
    | none => .error (.untypedRequest request.span request.name)
  | _ => .error (.missingRequest method.span method.name)

/-- The types of a method's response and of its errors, the two arguments of its result type. -/
def resultTypes (method : MethodDef Body) : Except Fault (TypeExpr × TypeExpr) :=
  match method.result with
  | none => .error (.missingResult method.span method.name)
  | some result =>
    match result.args with
    | [response, error] =>
      if result.lastName = resultName then .ok (response, error)
      else .error (.resultShape result.span result.canonical)
    | _ => .error (.resultShape result.span result.canonical)

/-- The signature of a method. Its request is examined before its result. -/
def signature (method : MethodDef Body) : Except Fault Signature := do
  let request ← method.requestType
  let (response, error) ← method.resultTypes
  return ⟨request, response, error⟩

end MethodDef

/-- The middleware that an argument names. -/
def Argument.middleware (argument : Argument) : Except Fault MiddlewareRef :=
  match argument.kind with
  | .path => .ok ⟨argument.value, argument.span⟩
  | _ => .error (.middlewareShape argument.span argument.value)

/-- The middlewares that an annotation lists; none when it is no middleware annotation. -/
def Annotation.middlewares (note : Annotation) : Except Fault (List MiddlewareRef) :=
  if note.name = middlewareAnnotation then
    match note.arguments with
    | none => .error (.missingMiddlewares note.span)
    | some arguments => arguments.mapM Argument.middleware
  else .ok []

/-- The middlewares that annotations list, one list after the other. -/
def middlewaresOf (annotations : List Annotation) : Except Fault (List MiddlewareRef) :=
  (annotations.mapM Annotation.middlewares).map List.flatten

/-- The method of a service that a written method becomes. It has no indices yet. Its signature
is examined before its middlewares. -/
def MethodDef.rpc (method : MethodDef String) : Except Fault Rpc := do
  let signature ← method.signature
  let middlewares ← middlewaresOf method.annotations
  return {
    name := method.name
    request := signature.request
    response := signature.response
    error := signature.error
    middlewares
    indices := []
    params := method.params
    body := method.body
    span := method.span }

/-- The name that an argument of a service annotation gives, without the module in front. -/
def Argument.endpointName (role : ServiceRole) (argument : Argument) : Except Fault String :=
  match argument.kind with
  | .path => .ok (lastSegment argument.value)
  | _ => .error (.serviceShape argument.span role argument.value)

/-- The names that a service annotation gives. -/
def Annotation.endpoint (note : Annotation) : Except Fault Endpoint :=
  match note.arguments.getD [] with
  | [interface, server] => do
    let interface ← interface.endpointName .interface
    let server ← server.endpointName .server
    return ⟨interface, server⟩
  | arguments => .error (.serviceArity note.span arguments.length)

namespace ImplDef

/-- The service annotations of a block. -/
def serviceAnnotations (impl : ImplDef Body) : List Annotation :=
  impl.annotations.filter fun annotation => annotation.name = serviceAnnotation

/-- The names that the only service annotation of a block gives. -/
def endpoint (impl : ImplDef Body) : Except Fault Endpoint :=
  match impl.serviceAnnotations with
  | [] => .error (.missingService impl.span impl.name)
  | [note] => note.endpoint
  | _ :: second :: _ => .error (.repeatedService second.span impl.name)

/-- The service that a block becomes. Its service annotation is examined before its methods. -/
def service (impl : ImplDef String) : Except Fault Service := do
  let endpoint ← impl.endpoint
  let rpcs ← impl.methods.mapM MethodDef.rpc
  let (registry, methods) ← Registry.build rpcs
  return { implementor := impl.name, bases := impl.bases, methods, registry, endpoint }

end ImplDef

/-- The services of a definition, in the order of its blocks. -/
def Definition.services (definition : Definition String) : Except Fault (List Service) :=
  definition.impls.mapM ImplDef.service

end Interpose
