/-!
# Classes of failures

Each class of failures is part of a wider class, up to the class of all failures, so a failure
belongs to its own class and to all classes around it. The classes that every module knows are known
by their names. A class that a module imports extends another one.
-/

namespace Interpose

/-- A class of failures. -/
inductive ErrorClass where
  /-- A class that is known by its name. -/
  | known (name : String)
  /-- A class of a name that extends another one. -/
  | extended (name : String) (base : ErrorClass)
  deriving DecidableEq, Repr

namespace ErrorClass

/-- The name of a class. -/
def name : ErrorClass → String
  | .known name => name
  | .extended name _ => name

/-- The class that each class is a part of. A class stands before every class that it is a part
of. -/
def wider : List (String × String) :=
  [("BrokenPipeError", "ConnectionError"), ("ConnectionAbortedError", "ConnectionError"),
   ("ConnectionRefusedError", "ConnectionError"), ("ConnectionResetError", "ConnectionError"),
   ("TabError", "IndentationError"), ("UnicodeDecodeError", "UnicodeError"),
   ("UnicodeEncodeError", "UnicodeError"), ("UnicodeTranslateError", "UnicodeError"),
   ("FloatingPointError", "ArithmeticError"), ("OverflowError", "ArithmeticError"),
   ("ZeroDivisionError", "ArithmeticError"), ("ModuleNotFoundError", "ImportError"),
   ("IndexError", "LookupError"), ("KeyError", "LookupError"), ("UnboundLocalError", "NameError"),
   ("BlockingIOError", "OSError"), ("ChildProcessError", "OSError"),
   ("ConnectionError", "OSError"), ("FileExistsError", "OSError"),
   ("FileNotFoundError", "OSError"), ("InterruptedError", "OSError"),
   ("IsADirectoryError", "OSError"), ("NotADirectoryError", "OSError"),
   ("PermissionError", "OSError"), ("ProcessLookupError", "OSError"), ("TimeoutError", "OSError"),
   ("NotImplementedError", "RuntimeError"), ("RecursionError", "RuntimeError"),
   ("IndentationError", "SyntaxError"), ("UnicodeError", "ValueError"),
   ("BytesWarning", "Warning"), ("DeprecationWarning", "Warning"), ("EncodingWarning", "Warning"),
   ("FutureWarning", "Warning"), ("ImportWarning", "Warning"),
   ("PendingDeprecationWarning", "Warning"), ("ResourceWarning", "Warning"),
   ("RuntimeWarning", "Warning"), ("SyntaxWarning", "Warning"), ("UnicodeWarning", "Warning"),
   ("UserWarning", "Warning"), ("ExceptionGroup", "BaseExceptionGroup"),
   ("RpcStatus", "Exception"), ("CustomError", "Exception"), ("NotCallable", "Exception"),
   ("ArithmeticError", "Exception"), ("AssertionError", "Exception"),
   ("AttributeError", "Exception"), ("BufferError", "Exception"), ("EOFError", "Exception"),
   ("ImportError", "Exception"), ("LookupError", "Exception"), ("MemoryError", "Exception"),
   ("NameError", "Exception"), ("OSError", "Exception"), ("ReferenceError", "Exception"),
   ("RuntimeError", "Exception"), ("StopAsyncIteration", "Exception"),
   ("StopIteration", "Exception"), ("SyntaxError", "Exception"), ("SystemError", "Exception"),
   ("TypeError", "Exception"), ("ValueError", "Exception"), ("Warning", "Exception"),
   ("BaseExceptionGroup", "BaseException"), ("Exception", "BaseException"),
   ("GeneratorExit", "BaseException"), ("KeyboardInterrupt", "BaseException"),
   ("SystemExit", "BaseException")]

/-- A name and the names around it, by a table that lists each name before those around it. -/
def chain (name : String) : List (String × String) → List String
  | [] => [name]
  | (part, whole) :: rest => if part = name then name :: chain whole rest else chain name rest

/-- A class and the classes around it, from the narrowest to the widest. -/
def lineage : ErrorClass → List ErrorClass
  | .known name => (chain name wider).map .known
  | .extended name base => .extended name base :: base.lineage

/-- The class that a class is a part of, if it is not the widest one. -/
def base? (errors : ErrorClass) : Option ErrorClass := errors.lineage.tail.head?

/-- A class lies within another one if that is the class itself or one around it. -/
def within (errors other : ErrorClass) : Bool := errors.lineage.contains other

/-- The class of all failures that can be handled. -/
def general : ErrorClass := .known "Exception"

/-- The class of wrong values. -/
def value : ErrorClass := .known "ValueError"

/-- The class of missing keys. -/
def key : ErrorClass := .known "KeyError"

/-- The class of failures while running. -/
def runtime : ErrorClass := .known "RuntimeError"

/-- The class of statuses. -/
def status : ErrorClass := .known "RpcStatus"

/-- The class of failures that convert themselves. -/
def custom : ErrorClass := .known "CustomError"

/-- The class of failures whose conversion cannot be called. -/
def uncallable : ErrorClass := .known "NotCallable"

/-- The classes that a module has to be given; it knows all others by itself. -/
def given : List ErrorClass := [status, custom, uncallable]

/-- The name under which a definition refers to the failures that convert themselves. -/
def customAlias : String := "Custom"

/-- The class that a middleware may declare by a name. -/
def declared? (name : String) : Option ErrorClass :=
  if name = customAlias then some custom
  else [general, value, key, runtime, status].find? fun errors => errors.name = name

example : (ErrorClass.known "KeyError").lineage.map name =
    ["KeyError", "LookupError", "Exception", "BaseException"] := by decide +kernel

end ErrorClass

end Interpose
