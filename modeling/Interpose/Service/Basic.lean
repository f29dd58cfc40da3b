import Interpose.Definition.Basic

/-!
# Services

What remains of a service block once it is accepted: its methods with their signatures and
middlewares, and the registry of the middlewares that they use. A middleware is what its path
says; where it was declared is kept but never compared. Texts are strings unless another type of
texts is given.
-/

namespace Interpose

/-- A middleware, named by its dotted path. -/
structure MiddlewareRef (τ : Type := String) where
  /-- The path. -/
  path : τ
  /-- Where it is declared. -/
  span : Span
  deriving DecidableEq, Repr

namespace MiddlewareRef

/-- Whether two references name one middleware. -/
def same (a b : MiddlewareRef) : Bool := a.path = b.path

/-- Whether one path stands before another in the order of code points. -/
def before (a b : MiddlewareRef) : Bool := a.path < b.path

/-- Whether one path does not stand after another. -/
def atMost (a b : MiddlewareRef) : Bool := !b.before a

end MiddlewareRef

/-- The middlewares of a service, by index. -/
abbrev Registry (τ : Type := String) := List (MiddlewareRef τ)

/-- A method of a service. -/
structure Rpc (τ : Type := String) where
  /-- Its name. -/
  name : τ
  /-- The type of its request. -/
  request : TypeExpr τ
  /-- The type of its response. -/
  response : TypeExpr τ
  /-- The type of the errors that it declares. -/
  error : TypeExpr τ
  /-- Its middlewares in the order in which their hooks run. -/
  middlewares : List (MiddlewareRef τ)
  /-- For each middleware, its index in the registry. -/
  indices : List Int
  /-- All its parameters. -/
  params : List (Param τ)
  /-- Its body. -/
  body : τ
  /-- Where its name stands. -/
  span : Span
  deriving DecidableEq, Repr

/-- The two names that a service annotation gives. -/
structure Endpoint (τ : Type := String) where
  /-- The interface that the wrapper extends. -/
  interface : τ
  /-- The constructor of the server object. -/
  server : τ
  deriving DecidableEq, Repr

/-- A service. -/
structure Service (τ : Type := String) where
  /-- The implementing class. -/
  implementor : τ
  /-- The classes that it extends. -/
  bases : List (TypeExpr τ)
  /-- Its methods. -/
  methods : List (Rpc τ)
  /-- Its middlewares by index. -/
  registry : Registry τ
  /-- The names around it. -/
  endpoint : Endpoint τ
  deriving DecidableEq, Repr

/-- The name of the class that wraps an implementing class. -/
def wrapperName (implementor : String) : String := implementor ++ "MiddlewareWrapper"

end Interpose
