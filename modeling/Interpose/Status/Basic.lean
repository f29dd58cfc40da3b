import Interpose.Json.Basic
import Interpose.Status.Code
import Interpose.Text.Quoted

/-!
# Statuses

The standard form of a failed call: a code, a message and details of any kind.
-/

namespace Interpose

/-- A status. -/
structure Status where
  /-- What kind of failure it is. -/
  code : StatusCode
  /-- What it says. -/
  message : String
  /-- What else is known. -/
  details : Json
  deriving DecidableEq, Repr

namespace Status

/-- Whether two statuses count as equal. -/
def same (a b : Status) : Bool :=
  a.code == b.code && a.message == b.message && a.details.same b.details

/-- A status with its code and message shown. -/
def shown (status : Status) : String :=
  "RpcStatus(" ++ status.code.name ++ ", " ++ Text.quoted status.message ++ ")"

end Status

end Interpose
