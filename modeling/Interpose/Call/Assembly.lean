import Interpose.Status.Failure
import Interpose.Wrapper.Basic

/-!
# Putting a wrapper together

A wrapper is put together from the object that holds the bodies and from middlewares. Arguments are
bound to parameters by position, and the wrapper keeps each parameter in the field of its name.
-/

namespace Interpose

/-- What a wrapper is put together from. -/
inductive Part where
  /-- The object that holds the bodies. -/
  | implementation
  /-- A middleware, known by its path. -/
  | middleware (path : String)
  deriving DecidableEq, Repr

/-- Bind arguments to the parameters of a function by position, behind those that are bound already.
There must be as many of the one as of the other. -/
def bindArguments {α : Type} (callee : String) (bound : Nat) (parameters : List String)
    (arguments : List α) : Except Failure (List (String × α)) :=
  if parameters.length < arguments.length then
    .error (.surplus callee (bound + parameters.length) (bound + arguments.length))
  else if arguments.length < parameters.length then
    .error (.missing callee (parameters.drop arguments.length))
  else .ok (parameters.zip arguments)

/-- The value of a variable, or the failure of reading it. -/
def readVariable {α : Type} (locals : List (String × α)) (name : String) : Except Failure α :=
  match locals.lookup name with
  | some value => .ok value
  | none => .error (.noName name)

/-- The fields of a wrapper that keeps its parameters. -/
def Wrapper.init (wrapper : Wrapper) (arguments : List Part) :
    Except Failure (List (String × Part)) := do
  let locals ← bindArguments (wrapper.name ++ ".__init__") 1 wrapper.kept arguments
  wrapper.kept.mapM fun name => (readVariable locals name).map fun part => (name, part)

/-- The fields of a service's wrapper, made from the implementation and one middleware for each
entry of the registry. There are none when arguments and parameters do not fit. -/
def Service.attributes (service : Service) : List (String × Part) :=
  (service.wrapper.init
    (.implementation :: service.fields.map Part.middleware)).toOption.getD []

end Interpose
