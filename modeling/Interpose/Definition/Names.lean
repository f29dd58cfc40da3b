import Interpose.Fault
import Interpose.Text.Digit

/-!
# Names

Service blocks have distinct names, and so have the methods of a block. A method must not take a
name that its wrapper needs for itself: names that begin with two underscores, the name under
which the wrapper keeps the implementation, and the names of its middleware fields.
-/

namespace Interpose

/-- The name under which a wrapper keeps the implementation. -/
def implementationField : String := "service_impl"

/-- What the name of a middleware field begins with. -/
def fieldFront : List Char := ['m', 'd', '_']

/-- Whether a wrapper needs a name for itself. A newline keeps a name that begins with two
underscores out of the reserved ones. -/
def isReserved (name : String) : Bool :=
  let cs := name.toList
  (cs.take 2 == ['_', '_'] && !(cs.drop 2).contains '\n') || name == implementationField ||
    (cs.take 3 == fieldFront && !(cs.drop 3).isEmpty && (cs.drop 3).all Text.isDecimalDigit)

variable {Body : Type}

/-- Check the methods of a block after methods with the given names. -/
def checkMethods (impl : String) (seen : List String) :
    List (MethodDef Body) → Except Fault Unit
  | [] => .ok ()
  | method :: methods =>
    if method.name ∈ seen then .error (.repeatedMethod method.span impl method.name)
    else if isReserved method.name then .error (.reservedMethod method.span method.name)
    else checkMethods impl (method.name :: seen) methods

/-- Check service blocks after blocks with the given names. -/
def checkImpls (seen : List String) : List (ImplDef Body) → Except Fault Unit
  | [] => .ok ()
  | impl :: impls =>
    if impl.name ∈ seen then .error (.repeatedImpl impl.span impl.name)
    else
      match checkMethods impl.name [] impl.methods with
      | .error fault => .error fault
      | .ok () => checkImpls (impl.name :: seen) impls

/-- Check the names of service blocks and methods, in textual order. -/
def checkNames (impls : List (ImplDef Body)) : Except Fault Unit := checkImpls [] impls

end Interpose
