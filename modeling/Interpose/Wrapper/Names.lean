import Interpose.Definition.Names

/-!
# Names in a wrapper

The names that a generated module uses besides those of the definition: the fields that hold the
middlewares of a wrapper, the variables that hold the contexts of a call, and the methods that
hold the bodies. A name that begins with two underscores is private to the class it stands in,
under a name of its own.
-/

namespace Interpose

/-- The field of a wrapper that holds the middleware with an index. -/
def fieldName (index : Int) : String := String.ofList fieldFront ++ toString index

/-- The names of the first middleware fields. -/
def fieldNames (count : Nat) : List String :=
  (List.range count).map fun index => fieldName (index : Nat)

/-- The variable that holds the context of the middleware at a position of a method's list. -/
def contextName (position : Nat) : String := "ctx_" ++ toString position

/-- The method of the implementing class that holds the body of a method. -/
def bodyName (method : String) : String := "_" ++ method ++ "_impl"

/-- The name under which a module knows the class of outcomes. -/
def outcomesName : String := "_Result"

/-- The name under which a module knows what turns failures into statuses. -/
def conversionName : String := "_into_status"

/-- Whether a name is private to the class that it stands in. -/
def isPrivate (name : List Char) : Bool :=
  name.take 2 == ['_', '_'] && name.reverse.take 2 != ['_', '_']

/-- The name that a name stands for inside a class. A private name takes the name of the class
without its leading underscores; a class that is named by underscores alone changes no name. -/
def nameWithin (className name : List Char) : List Char :=
  match className.dropWhile (· = '_') with
  | [] => name
  | bare => if isPrivate name then '_' :: bare ++ name else name

/-- The name of an attribute that is written inside a class. -/
def attributeWithin (className name : String) : String :=
  String.ofList (nameWithin className.toList name.toList)

example : attributeWithin "_Impl" "__f_impl" = "_Impl__f_impl" := by decide +kernel
example : attributeWithin "Impl" "_f_impl" = "_f_impl" := by decide +kernel
example : attributeWithin "__" "__f_impl" = "__f_impl" := by decide +kernel

end Interpose
