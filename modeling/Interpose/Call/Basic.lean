import Interpose.Status.Outcome

/-!
# Calls

What can be seen of a call of a wrapped method: the hooks and the body that ran, in order, and
the answer. How hooks and bodies act is a `Behavior`, a function of what ran before them.
-/

namespace Interpose

/-- What a hook or a body does. -/
inductive Act where
  /-- It returns a value. -/
  | give (value : Json)
  /-- It raises a failure. -/
  | fail (failure : Failure)
  deriving DecidableEq, Repr

/-- A hook or a body that runs. -/
inductive Event where
  /-- A hook runs before the call. Its middleware has run as many such hooks, this one
  included. -/
  | before (path : String) (count : Nat) (request : Json)
  /-- The body of a method runs with the contexts of the hooks before it. -/
  | body (method : String) (contexts : List Json) (request : Json)
  /-- A hook runs after the call with its context and the outcome. -/
  | after (path : String) (context : Json) (outcome : Outcome)
  deriving DecidableEq, Repr

/-- How hooks and bodies act, given what ran before them in the call. -/
abbrev Behavior := List Event → Event → Act

/-- A call of a method. -/
structure Call where
  /-- The name of the method. -/
  method : String
  /-- The request. -/
  request : Json
  /-- How hooks and bodies act in it. -/
  behavior : Behavior

/-- How a call ends for its caller. -/
inductive Answer where
  /-- It returns a value. -/
  | value (value : Json)
  /-- It raises a failure, because of another one if a hook rejected the call. -/
  | raised (failure : Failure) (cause : Option Failure)
  deriving DecidableEq, Repr

/-- How many hooks before calls each middleware has run. -/
abbrev Counts := String → Nat

namespace Counts

/-- The counts before the first call. -/
def zero : Counts := fun _ => 0

/-- The counts after one more hook of a middleware. -/
def add (counts : Counts) (path : String) : Counts := fun other =>
  if other = path then counts path + 1 else counts other

end Counts

/-- What a call leaves behind. -/
structure Trace where
  /-- What ran, in order. -/
  log : List Event
  /-- The answer. -/
  answer : Answer
  /-- The counts after the call. -/
  counts : Counts

end Interpose
