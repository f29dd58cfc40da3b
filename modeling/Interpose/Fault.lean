import Interpose.Definition.Basic
import Interpose.Text.Quoted

/-!
# Faults

Every reason for which a definition is refused is a constructor of `Fault`. What a fault says,
where it points and what it advises are functions of it, gathered in a `Diagnostic`.
-/

namespace Interpose

/-- A message about a definition. -/
structure Diagnostic where
  /-- The message itself. -/
  text : String
  /-- Where it points, if anywhere. -/
  span : Option Span
  /-- Advice that follows the message. -/
  help : Option String
  deriving DecidableEq, Repr

/-- A line or column number in a message. -/
def numberText : Option Int → String
  | none => "None"
  | some n => toString n

/-- The message with its position in front, if it has one. -/
def Diagnostic.located (diagnostic : Diagnostic) : String :=
  match diagnostic.span with
  | none => diagnostic.text
  | some span =>
    "line " ++ numberText span.line ++ ", column " ++ numberText span.column ++ ": " ++
      diagnostic.text

/-- The annotation that makes a block a service. -/
def serviceAnnotation : String := "middleware_service"

/-- The annotation that lists a method's middlewares. -/
def middlewareAnnotation : String := "middleware"

/-- The two arguments of a service annotation. -/
inductive ServiceRole where
  /-- The interface that the wrapper extends. -/
  | interface
  /-- The constructor of the server object. -/
  | server
  deriving DecidableEq, Repr

/-- A role in a message. -/
def ServiceRole.text : ServiceRole → String
  | .interface => "an interface"
  | .server => "a server-constructor"

/-- What a fault is about. -/
inductive FaultKind where
  /-- The text is no definition file. -/
  | form
  /-- The parts of a definition do not fit together. -/
  | consistency
  /-- A service annotation is wrong. -/
  | service
  /-- The signature of a method is wrong. -/
  | signature
  /-- A middleware annotation is wrong. -/
  | middleware
  /-- A middleware is not in the registry. -/
  | registry
  deriving DecidableEq, Repr

/-- Why a definition is refused. -/
inductive Fault where
  /-- The text stops being a definition file. -/
  | malformed (span : Span) (context : String)
  /-- A body of several lines begins beside its fence. -/
  | textOnFence (span : Span) (text : String)
  /-- Two service blocks have one name. -/
  | repeatedImpl (span : Span) (impl : String)
  /-- Two methods of a service block have one name. -/
  | repeatedMethod (span : Span) (impl method : String)
  /-- A method has a name that the wrapper needs for itself. -/
  | reservedMethod (span : Span) (method : String)
  /-- A service block has no service annotation. -/
  | missingService (span : Span) (impl : String)
  /-- A service block has two service annotations. -/
  | repeatedService (span : Span) (impl : String)
  /-- A service annotation has too few or too many arguments. -/
  | serviceArity (span : Span) (count : Nat)
  /-- An argument of a service annotation is no path. -/
  | serviceShape (span : Span) (role : ServiceRole) (value : String)
  /-- A method has no request parameter. -/
  | missingRequest (span : Span) (method : String)
  /-- The request parameter of a method has no type. -/
  | untypedRequest (span : Span) (param : String)
  /-- A method has no result type. -/
  | missingResult (span : Span) (method : String)
  /-- The result type of a method is not a response and an error. -/
  | resultShape (span : Span) (type : String)
  /-- A middleware annotation has no list. -/
  | missingMiddlewares (span : Span)
  /-- An argument of a middleware annotation is no path. -/
  | middlewareShape (span : Span) (value : String)
  /-- A middleware is not in the registry. -/
  | unregistered (span : Span) (path : String)
  deriving DecidableEq, Repr

namespace Fault

/-- What a fault is about. -/
def kind : Fault → FaultKind
  | .malformed .. | .textOnFence .. => .form
  | .repeatedImpl .. | .repeatedMethod .. | .reservedMethod .. => .consistency
  | .missingService .. | .repeatedService .. | .serviceArity .. | .serviceShape .. => .service
  | .missingRequest .. | .untypedRequest .. | .missingResult .. | .resultShape .. => .signature
  | .missingMiddlewares .. | .middlewareShape .. => .middleware
  | .unregistered .. => .registry

/-- Where a fault points. -/
def span : Fault → Span
  | .malformed span .. | .textOnFence span .. | .repeatedImpl span .. | .repeatedMethod span ..
  | .reservedMethod span .. | .missingService span .. | .repeatedService span ..
  | .serviceArity span .. | .serviceShape span .. | .missingRequest span ..
  | .untypedRequest span .. | .missingResult span .. | .resultShape span ..
  | .missingMiddlewares span | .middlewareShape span .. | .unregistered span .. => span

/-- What a fault says. -/
def message : Fault → String
  | .malformed .. => "Invalid service definition syntax"
  | .textOnFence .. => "A multi-line body must start on the line after the opening fence"
  | .repeatedImpl _ impl => "impl " ++ impl ++ " is declared more than once"
  | .repeatedMethod _ impl method =>
    "rpc " ++ method ++ " is declared more than once in impl " ++ impl
  | .reservedMethod _ method =>
    "rpc " ++ method ++ " clashes with a name used by the generated wrapper"
  | .missingService _ impl => "impl " ++ impl ++ " needs a @" ++ serviceAnnotation ++ " annotation"
  | .repeatedService _ impl =>
    "impl " ++ impl ++ " has more than one @" ++ serviceAnnotation ++ " annotation"
  | .serviceArity _ count =>
    "@" ++ serviceAnnotation ++ " takes exactly two arguments, got " ++ toString count
  | .serviceShape _ role value => "Needs to be " ++ role.text ++ " identifier, got " ++ value
  | .missingRequest _ method =>
    "rpc " ++ method ++ " needs a request parameter after the receiver and environment"
  | .untypedRequest .. => "Only typed parameters are accepted for the request"
  | .missingResult _ method => "rpc " ++ method ++ " needs a return type"
  | .resultShape _ type => "Return type should be Result[Response, Error], not " ++ type
  | .missingMiddlewares _ =>
    "@" ++ middlewareAnnotation ++ " must be a list of middleware type references"
  | .middlewareShape _ value =>
    "@" ++ middlewareAnnotation ++ " must be a list of middleware type references, got " ++ value
  | .unregistered _ path => "Impossible generator error: " ++ path ++ " is not in the registry"

/-- What a fault advises, if anything. -/
def help : Fault → Option String
  | .malformed _ context => some context
  | .textOnFence _ text => some ("Move " ++ Text.quoted text ++ " to its own line")
  | .missingService .. => some ("Add @" ++ serviceAnnotation ++ arguments)
  | .serviceArity .. => some ("Write it as @" ++ serviceAnnotation ++ arguments)
  | .missingRequest .. => some "Declare it as (self, env, request: RequestType)"
  | .untypedRequest _ param => some ("Annotate it: " ++ param ++ ": RequestType")
  | .missingMiddlewares _ => some ("Write it as @" ++ middlewareAnnotation ++ "(A, B, ...)")
  | _ => none
where
  /-- The arguments of a service annotation, as advice shows them. -/
  arguments : String := "(ServiceInterface, server_constructor)"

/-- A fault as a message. -/
def diagnostic (fault : Fault) : Diagnostic := ⟨fault.message, some fault.span, fault.help⟩

end Fault

end Interpose
