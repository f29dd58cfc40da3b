import Interpose.Service.Basic
import Interpose.Wrapper.Names

/-!
# Wrappers

A service is generated as two classes. The wrapper keeps an implementation and the middlewares
in fields, and each of its methods is a sequence of statements: the hooks before the call in
declared order, the call of the body, the hooks after it in the same order. The implementing
class holds the bodies, and makes the wrapper around itself.
-/

namespace Interpose

/-- A statement in a method of a wrapper. -/
inductive Statement where
  /-- Bind the context at a position to what the hook of a field returns for the request. -/
  | before (position : Nat) (field : Int)
  /-- Gather the contexts of the first positions. -/
  | gather (count : Nat)
  /-- Call the body of a method with the gathered contexts and the request; an error of the
  declared type becomes part of the outcome. -/
  | call (method : String) (error : String)
  /-- Pass the context at a position and the outcome to the hook of a field. -/
  | after (position : Nat) (field : Int)
  /-- Answer the outcome. -/
  | answer
  deriving DecidableEq, Repr

/-- A method of a wrapper. -/
structure WrapperMethod where
  /-- Its name. -/
  name : String
  /-- The type of its request. -/
  request : String
  /-- The type of its response. -/
  response : String
  /-- What it does. -/
  statements : List Statement
  deriving DecidableEq, Repr

/-- The class that runs hooks around an implementation. -/
structure Wrapper where
  /-- Its name. -/
  name : String
  /-- The interface that it extends. -/
  interface : String
  /-- The class that it wraps. -/
  implementor : String
  /-- The types of its middleware fields. -/
  fields : List String
  /-- Its methods. -/
  methods : List WrapperMethod
  deriving DecidableEq, Repr

/-- A body that the implementing class holds. -/
structure HeldBody where
  /-- The name of the method whose body it is. -/
  method : String
  /-- Its parameters. -/
  params : String
  /-- The type of its response. -/
  response : String
  /-- Its lines. -/
  text : String
  deriving DecidableEq, Repr

/-- The class that holds the bodies. -/
structure Implementor where
  /-- Its name. -/
  name : String
  /-- The classes that it extends. -/
  bases : List String
  /-- The types of the middlewares that it passes on. -/
  fields : List String
  /-- The constructor of the server object. -/
  server : String
  /-- The class that wraps it. -/
  wrapper : String
  /-- The bodies. -/
  bodies : List HeldBody
  deriving DecidableEq, Repr

/-- The parameters with which a wrapper is made, in order: the implementation and the middlewares.
Each is kept in the field of its name. -/
def Wrapper.kept (wrapper : Wrapper) : List String :=
  implementationField :: fieldNames wrapper.fields.length

/-- The name of the receiver in every method. -/
def receiver : String := "self"

/-- The parameters of the method that makes the wrapper: the receiver and the middlewares. -/
def Implementor.parameters (implementor : Implementor) : List String :=
  receiver :: fieldNames implementor.fields.length

/-- What that method passes on to the wrapper, in order. -/
def Implementor.passed (implementor : Implementor) : List String :=
  receiver :: fieldNames implementor.fields.length

/-- The statements that run a hook of each field, in order, from a position on. -/
def hooks (statement : Nat → Int → Statement) : Nat → List Int → List Statement
  | _, [] => []
  | position, field :: fields => statement position field :: hooks statement (position + 1) fields

namespace Rpc

/-- What the wrapper's method does. -/
def statements (rpc : Rpc) : List Statement :=
  hooks .before 0 rpc.indices ++
    [.gather rpc.middlewares.length, .call rpc.name rpc.error.name] ++
    hooks .after 0 rpc.indices ++ [.answer]

/-- The wrapper's method. -/
def wrapperMethod (rpc : Rpc) : WrapperMethod :=
  ⟨rpc.name, rpc.request.canonical, rpc.response.canonical, rpc.statements⟩

/-- The body that the implementing class holds. -/
def heldBody (rpc : Rpc) : HeldBody :=
  ⟨rpc.name, ", ".intercalate (rpc.params.map Param.text), rpc.response.canonical, rpc.body⟩

end Rpc

namespace Service

/-- The types of a service's middleware fields. -/
def fields (service : Service) : List String := service.registry.map (·.path)

/-- The class that runs the hooks. -/
def wrapper (service : Service) : Wrapper where
  name := wrapperName service.implementor
  interface := service.endpoint.interface
  implementor := service.implementor
  fields := service.fields
  methods := service.methods.map Rpc.wrapperMethod

/-- The class that holds the bodies. -/
def implementorClass (service : Service) : Implementor where
  name := service.implementor
  bases := service.bases.map TypeExpr.canonical
  fields := service.fields
  server := service.endpoint.server
  wrapper := wrapperName service.implementor
  bodies := service.methods.map Rpc.heldBody

end Service

end Interpose
