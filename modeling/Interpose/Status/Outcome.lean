import Interpose.Status.Failure

/-!
# Outcomes

The outcome of a call as the hooks after it see it: a value or a failure, never both.
-/

namespace Interpose

/-- The outcome of a call. -/
inductive Outcome where
  /-- The call returned a value. -/
  | returned (value : Json)
  /-- The call failed. -/
  | failed (failure : Failure)
  deriving DecidableEq, Repr

namespace Outcome

/-- Whether the call returned a value. -/
def isOk : Outcome → Bool
  | .returned _ => true
  | .failed _ => false

/-- The value of an outcome; null when the call failed. -/
def valueOrNull : Outcome → Json
  | .returned value => value
  | .failed _ => .null

/-- The failure of an outcome, if the call failed. -/
def failure? : Outcome → Option Failure
  | .returned _ => none
  | .failed failure => some failure

/-- The value of an outcome; its failure is raised. -/
def unwrap : Outcome → Except Failure Json
  | .returned value => .ok value
  | .failed failure => .error failure

/-- The failure of an outcome; an outcome without one is refused. -/
def unwrapFailure : Outcome → Except Failure Failure
  | .returned _ => .error (.plain .value [.str "Called unwrap_err() on an ok result"])
  | .failed failure => .ok failure

/-- Whether an outcome is a value that counts as equal to the given one. -/
def isValue (expected : Json) : Outcome → Bool
  | .returned value => value.same expected
  | .failed _ => false

end Outcome

end Interpose
