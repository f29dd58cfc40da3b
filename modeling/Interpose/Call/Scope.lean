import Interpose.Json.Literal
import Interpose.Status.Failure
import Interpose.Wrapper.Names

/-!
# Names in scope

What a dotted name stands for where a wrapper's method evaluates it. The first segment is looked
up among the variables of the call, then among the names of the module, then among the names
that every module knows; each further segment is a member of what stands before it. Only classes
of failures, and tuples of them, can be caught. A module also knows two names of the support
package: the class of outcomes and what turns failures into statuses.
-/

namespace Interpose

/-- What a name stands for. -/
inductive Referent where
  /-- A class of failures. -/
  | failures (errors : ErrorClass)
  /-- Another class, with the members that it has besides those of every class. -/
  | type (name : String) (members : List String)
  /-- An object of a class, with the members that it has besides those of every object. -/
  | object (owner : String) (members : List (String × Referent))
  /-- A tuple. -/
  | tuple (items : List Referent)
  /-- The class of outcomes. -/
  | outcomes
  /-- What turns failures into statuses. -/
  | conversion

namespace Referent

/-- The members that every object has. -/
def objectMembers : List String :=
  ["__class__", "__delattr__", "__dir__", "__doc__", "__eq__", "__format__", "__ge__",
   "__getattribute__", "__getstate__", "__gt__", "__hash__", "__init__", "__init_subclass__",
   "__le__", "__lt__", "__ne__", "__new__", "__reduce__", "__reduce_ex__", "__repr__",
   "__setattr__", "__sizeof__", "__str__", "__subclasshook__"]

/-- The members that every class has besides those of every object. -/
def typeMembers : List String :=
  ["__annotations__", "__base__", "__bases__", "__basicsize__", "__call__", "__dict__",
   "__dictoffset__", "__flags__", "__instancecheck__", "__itemsize__", "__module__", "__mro__",
   "__name__", "__or__", "__prepare__", "__qualname__", "__ror__", "__subclasscheck__",
   "__subclasses__", "__text_signature__", "__weakrefoffset__", "mro"]

/-- The members that every class of failures has besides those of every class. -/
def failureMembers : List String :=
  ["__cause__", "__context__", "__dict__", "__setstate__", "__suppress_context__", "__traceback__",
   "add_note", "args", "with_traceback"]

/-- The members that every tuple has besides those of every object. -/
def tupleMembers : List String := ["count", "index"]

/-- The members that the class of outcomes has besides those of every class. -/
def outcomeMembers : List String :=
  ["_error", "_value", "err", "error", "is_err", "is_ok", "ok", "unwrap", "unwrap_err", "value"]

/-- The members that every function has besides those of every object. -/
def functionMembers : List String :=
  ["__annotations__", "__call__", "__closure__", "__code__", "__defaults__", "__dict__", "__get__",
   "__globals__", "__kwdefaults__", "__module__", "__name__", "__qualname__"]

/-- An object of a class about whose members nothing is known. -/
def plain (owner : String) : Referent := .object owner []

/-- A member about which nothing is known but that it is there. -/
def someMember : Referent := plain "method"

/-- The members that every object has whose class a module defines. -/
def instanceMembers : List (String × Referent) :=
  [("__dict__", plain "dict"), ("__module__", plain "str"), ("__weakref__", plain "NoneType"),
   ("__doc__", plain "str")]

/-- A value as an object. -/
def ofJson (value : Json) : Referent := plain value.className

/-- The class that a class of failures is a part of. -/
def baseOf (errors : ErrorClass) : Referent :=
  match errors.base? with
  | some base => .failures base
  | none => .type "object" []

/-- The class of what a name stands for. -/
def owner : Referent → String
  | .failures _ | .type .. | .outcomes => "type"
  | .object owner _ => owner
  | .tuple _ => "tuple"
  | .conversion => "function"

/-- A member that depends on what has it: its class, and for a class the classes around it. -/
def ownMember? (name : String) (referent : Referent) : Option Referent :=
  match referent, name with
  | referent, "__class__" => some (.type referent.owner [])
  | .failures errors, "__base__" => some (baseOf errors)
  | .failures errors, "__bases__" => some (.tuple [baseOf errors])
  | .failures errors, "__mro__" =>
    some (.tuple (errors.lineage.map .failures ++ [.type "object" []]))
  | .type .., "__base__" => some (.type "object" [])
  | .object _ members, name => members.lookup name
  | _, _ => none

/-- The members that all of a kind have. -/
def sharedMembers : Referent → List String
  | .failures _ => failureMembers ++ typeMembers ++ objectMembers
  | .type _ members => members ++ typeMembers ++ objectMembers
  | .object .. => objectMembers
  | .tuple _ => tupleMembers ++ objectMembers
  | .outcomes => outcomeMembers ++ typeMembers ++ objectMembers
  | .conversion => functionMembers ++ objectMembers

/-- The failure of looking for a member that is not there. -/
def lacks (name : String) : Referent → Failure
  | .failures errors => .noMember errors.name name
  | .type owner _ => .noMember owner name
  | .object owner _ => .noAttribute owner name
  | .tuple _ => .noAttribute "tuple" name
  | .outcomes => .noMember "Result" name
  | .conversion => .noAttribute "function" name

/-- A member, or the failure of looking for it. -/
def member (referent : Referent) (name : String) : Except Failure Referent :=
  match ownMember? name referent with
  | some found => .ok found
  | none =>
    if name ∈ referent.sharedMembers then .ok someMember else .error (referent.lacks name)

/-- The class of failures that a name stands for. -/
def errors? : Referent → Option ErrorClass
  | .failures errors => some errors
  | _ => none

/-- Whether what a name stands for catches a failure. A tuple catches what any of its classes
catches; anything but classes of failures is refused. -/
def catches (failure : Failure) : Referent → Except Failure Bool
  | .failures errors => .ok (errors.catches failure)
  | .tuple items =>
    match items.mapM errors? with
    | some classes => .ok (classes.any fun errors => errors.catches failure)
    | none => .error .uncatchable
  | _ => .error .uncatchable

/-- The classes of the objects that can be called. -/
def callableOwners : List String :=
  ["Quitter", "_Helper", "builtin_function_or_method", "function", "method", "type"]

/-- Whether what a name stands for can be called, or the failure of calling it. -/
def callable (referent : Referent) : Except Failure Unit :=
  match referent with
  | .object owner members =>
    if owner ∈ callableOwners ∨ (members.lookup "__call__").isSome then .ok ()
    else .error (.notCallable owner)
  | .tuple _ => .error (.notCallable "tuple")
  | _ => .ok ()

/-- Whether what a name stands for makes outcomes by a member of its own, or the failure of using
it so. -/
def makesOutcomes (name : String) (referent : Referent) : Except Failure Unit :=
  match referent with
  | .outcomes => .ok ()
  | referent => do throw (.notCallable (← referent.member name).owner)

/-- The status that what a name stands for turns a failure into, or the failure of using it so. -/
def convert (failure : Failure) (referent : Referent) : Except Failure Status :=
  match referent with
  | .conversion => failure.toStatus
  | .type name _ => .error (.argumentless name)
  | referent => .error (.notCallable referent.owner)

end Referent

namespace Scope

/-- The classes that every module knows besides those of failures. -/
def types : List String :=
  ["bool", "bytearray", "bytes", "classmethod", "complex", "dict", "enumerate", "filter", "float",
   "frozenset", "int", "list", "map", "memoryview", "object", "property", "range", "reversed",
   "set", "slice", "staticmethod", "str", "super", "tuple", "type", "zip"]

/-- The objects that every module knows, by their classes. -/
def objects : List (String × List String) :=
  [("ellipsis", ["Ellipsis"]),
   ("bool", ["False", "True", "__debug__"]),
   ("NoneType", ["None"]),
   ("NotImplementedType", ["NotImplemented"]),
   ("builtin_function_or_method",
     ["__build_class__", "__import__", "abs", "aiter", "all", "anext", "any", "ascii", "bin",
      "breakpoint", "callable", "chr", "compile", "delattr", "dir", "divmod", "eval", "exec",
      "format", "getattr", "globals", "hasattr", "hash", "hex", "id", "input", "isinstance",
      "issubclass", "iter", "len", "locals", "max", "min", "next", "oct", "open", "ord", "pow",
      "print", "repr", "round", "setattr", "sorted", "sum", "vars"]),
   ("str", ["__doc__", "__name__", "__package__"]),
   ("dict", ["__builtins__"]),
   ("ModuleSpec", ["__spec__"]),
   ("Quitter", ["exit", "quit"]),
   ("_Helper", ["help"])]

/-- Other names of classes of failures. -/
def aliases : List (String × String) := [("EnvironmentError", "OSError"), ("IOError", "OSError")]

/-- What a name that every module knows stands for. -/
def standard? (name : String) : Option Referent :=
  let name := (aliases.lookup name).getD name
  if ErrorClass.given.contains (.known name) then none
  else if ErrorClass.wider.any fun (part, whole) => part = name || whole = name then
    some (.failures (.known name))
  else if name ∈ types then some (.type name [])
  else (objects.find? fun entry => entry.2.contains name).map fun entry => .plain entry.1

end Scope

/-- The names in scope: variables, each with its value or the failure of reading it, and the
names of the module. -/
structure Scope where
  /-- The class in which names are written. -/
  within : String
  /-- The variables. -/
  locals : List (String × Except Failure Referent)
  /-- The names of the module. -/
  globals : List (String × Referent)

namespace Scope

/-- The names of a module where no class and no variable is around. -/
def outside (globals : List (String × Referent)) : Scope := ⟨"", [], globals⟩

/-- What a name stands for. -/
def find (scope : Scope) (name : String) : Except Failure Referent :=
  match scope.locals.lookup name with
  | some value => value
  | none =>
    match (scope.globals.lookup name).or (standard? name) with
    | some referent => .ok referent
    | none => .error (.noName name)

/-- The segments of a dotted name. -/
def segments (cs : List Char) : List (List Char) := cs.splitOn '.'

/-- What a dotted name stands for. Each segment is read as a name written inside the class. -/
def evaluate (scope : Scope) (path : String) : Except Failure Referent :=
  match (segments path.toList).map fun cs => attributeWithin scope.within (String.ofList cs) with
  | [] => .error (.noName path)
  | first :: rest => do rest.foldlM Referent.member (← scope.find first)

end Scope

end Interpose
