import Interpose.Position
import Interpose.Service.Registry

/-!
# Registry sessions

A session holds methods and a registry that need not fit each other. Its steps change the
methods, set the registry by hand, or bring the two together.
-/

namespace Interpose.Registry

/-- The state of a session. -/
structure Session where
  /-- The methods so far. -/
  methods : List Rpc
  /-- The registry so far. -/
  registry : Registry
  deriving DecidableEq, Repr

/-- What a session does. -/
inductive Step where
  /-- Add a method at the end. -/
  | add (rpc : Rpc)
  /-- Remove the method at an index, which counts from the end when it is negative. -/
  | remove (index : Int)
  /-- Set the registry by hand. -/
  | set (registry : Registry)
  /-- Set the registry to that of the methods. -/
  | collect
  /-- Find the indices of the methods' middlewares in the registry. -/
  | resolve
  /-- Collect and resolve. -/
  | build
  deriving DecidableEq, Repr

/-- Why a step fails. -/
inductive StepFault where
  /-- A middleware of a method is not in the registry. -/
  | registry (fault : Fault)
  /-- There is no method at an index. -/
  | noMethod (index : Int)
  deriving DecidableEq, Repr

namespace Session

/-- The state in which a session begins. -/
def empty : Session := ⟨[], []⟩

/-- The state after a step, or why the step fails. -/
def step (session : Session) : Step → Except StepFault Session
  | .add rpc => .ok { session with methods := session.methods ++ [rpc] }
  | .remove index =>
    match position? session.methods.length index with
    | some position => .ok { session with methods := session.methods.eraseIdx position }
    | none => .error (.noMethod index)
  | .set registry => .ok { session with registry }
  | .collect => .ok { session with registry := Registry.collect session.methods }
  | .resolve =>
    match Registry.resolve session.methods session.registry with
    | .ok methods => .ok { session with methods }
    | .error fault => .error (.registry fault)
  | .build =>
    match Registry.build session.methods with
    | .ok (registry, methods) => .ok ⟨methods, registry⟩
    | .error fault => .error (.registry fault)

/-- The state after a step; a step that fails changes nothing. -/
def next (session : Session) (step : Step) : Session :=
  match session.step step with
  | .ok after => after
  | .error _ => session

end Session

end Interpose.Registry
