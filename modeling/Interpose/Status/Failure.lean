import Interpose.Json.Literal
import Interpose.Status.Basic
import Interpose.Status.ErrorClass

/-!
# Failures

What a hook or a body can raise, and how it becomes a status. A failure that is a status stays
itself. One that converts itself says which status it becomes, and is refused when what it says
is no status. Every other failure becomes an unknown status with its text.
-/

namespace Interpose

/-- The classes of failures that carry a list of values. -/
inductive PlainClass where
  /-- Any failure. -/
  | general
  /-- A wrong value. -/
  | value
  /-- A missing key. -/
  | key
  /-- A failure while running. -/
  | runtime
  deriving DecidableEq, Repr

/-- A failure. -/
inductive Failure where
  /-- A status. -/
  | status (status : Status)
  /-- A failure with values. -/
  | plain (kind : PlainClass) (values : List Json)
  /-- A failure that converts itself, to a status or to something that is none. -/
  | custom (message : String) (converted : Option Status)
  /-- A failure whose conversion cannot be called. -/
  | uncallable (message : String)
  /-- A failure of another class, none of whose failures is a status. It may convert itself, to a
  status or to something that is none. -/
  | foreign (errors : ErrorClass) (message : String) (converted : Option (Option Status))
    (h : errors.within .status = false)
  /-- A failure of a class converts itself to something that is no status. -/
  | refused (owner : String)
  /-- An object has no such attribute. -/
  | noAttribute (owner member : String)
  /-- A class has no such member. -/
  | noMember (owner member : String)
  /-- A name stands for nothing. -/
  | noName (name : String)
  /-- A variable has no value yet. -/
  | unbound (name : String)
  /-- What should be a class of failures is none. -/
  | uncatchable
  /-- An object of a class is called although it is no method. -/
  | notCallable (owner : String)
  /-- A function is called without some of its arguments. -/
  | missing (callee : String) (names : List String)
  /-- A function is called with more arguments than it takes. -/
  | surplus (callee : String) (taken given : Nat)
  /-- A class whose objects are made without arguments is called with some. -/
  | argumentless (owner : String)
  deriving DecidableEq, Repr

namespace Failure

/-- The narrowest class that a failure belongs to. -/
def errorClass : Failure → ErrorClass
  | .status _ => .status
  | .plain .general _ => .general
  | .plain .value _ => .value
  | .plain .key _ => .key
  | .plain .runtime _ => .runtime
  | .custom .. => .custom
  | .uncallable _ => .uncallable
  | .foreign errors .. => errors
  | .refused _ | .uncatchable | .notCallable _ | .missing .. | .surplus .. | .argumentless _ =>
    .known "TypeError"
  | .noAttribute .. | .noMember .. => .known "AttributeError"
  | .noName _ => .known "NameError"
  | .unbound _ => .known "UnboundLocalError"

/-- Names in a list as they are counted up in a sentence. -/
def listing : List String → String
  | [] => ""
  | [name] => Text.quoted name
  | [name, last] => Text.quoted name ++ " and " ++ Text.quoted last
  | names => ", ".intercalate (names.dropLast.map Text.quoted) ++ ", and " ++
      ((names.getLast?.map Text.quoted).getD "")

/-- The ending of the name of some things. -/
def plural (count : Nat) : String := if count = 1 then "" else "s"

/-- What a failure says. -/
def text : Failure → String
  | .status s => s.message
  | .plain .key [value] => value.literal
  | .plain _ [value] => value.display
  | .plain _ [] => ""
  | .plain _ values => Json.tupleText values
  | .custom message _ => message
  | .uncallable message => message
  | .foreign _ message _ _ => message
  | .refused owner => owner ++ ".to_status() must return an RpcStatus"
  | .noAttribute owner member =>
    Text.quoted owner ++ " object has no attribute " ++ Text.quoted member
  | .noMember owner member =>
    "type object " ++ Text.quoted owner ++ " has no attribute " ++ Text.quoted member
  | .noName name => "name " ++ Text.quoted name ++ " is not defined"
  | .unbound name =>
    "cannot access local variable " ++ Text.quoted name ++
      " where it is not associated with a value"
  | .uncatchable => "catching classes that do not inherit from BaseException is not allowed"
  | .notCallable owner => Text.quoted owner ++ " object is not callable"
  | .missing callee names =>
    callee ++ "() missing " ++ toString names.length ++ " required positional argument" ++
      plural names.length ++ ": " ++ listing names
  | .surplus callee taken given =>
    callee ++ "() takes " ++ toString taken ++ " positional argument" ++ plural taken ++ " but " ++
      toString given ++ (if given = 1 then " was given" else " were given")
  | .argumentless owner => owner ++ "() takes no arguments"

/-- The status that a failure becomes, or what its conversion raises. -/
def toStatus : Failure → Except Failure Status
  | .status s => .ok s
  | .custom _ (some s) => .ok s
  | .custom _ none => .error (.refused ErrorClass.custom.name)
  | .foreign _ _ (some (some s)) _ => .ok s
  | .foreign errors _ (some none) _ => .error (.refused errors.name)
  | failure => .ok ⟨.unknown, failure.text, .null⟩

/-- Whether conversion leaves a failure as it is. -/
def isStatus : Failure → Bool
  | .status _ => true
  | _ => false

end Failure

/-- Whether a failure belongs to a class. -/
def ErrorClass.catches (errors : ErrorClass) (failure : Failure) : Bool :=
  failure.errorClass.within errors

end Interpose
