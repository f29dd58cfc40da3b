import Interpose.Fault
import Interpose.Service.Basic

/-!
# The registry

The registry holds every middleware that the methods of a service use, once, in the order of
their paths. A method refers to its middlewares by their index in it. `collect` makes the
registry of a list of methods, `resolve` finds the indices of their middlewares in a registry,
and `build` does both.
-/

namespace Interpose.Registry

/-- The references of a list without those whose path an earlier one has. -/
def distinct : List MiddlewareRef → List MiddlewareRef
  | [] => []
  | ref :: refs => ref :: (distinct refs).filter fun other => !ref.same other

/-- A list of references in the order of their paths; references with one path keep their
order. -/
def sort (refs : List MiddlewareRef) : List MiddlewareRef := refs.mergeSort MiddlewareRef.atMost

/-- The registry of the middlewares that methods use. Of several references with one path the
first one is kept. -/
def collect (methods : List Rpc) : Registry := sort (distinct (methods.flatMap (·.middlewares)))

/-- The index of a path in a registry, the last one if there are several. -/
def index? (path : String) : Registry → Option Nat
  | [] => none
  | ref :: refs =>
    match index? path refs with
    | some index => some (index + 1)
    | none => if ref.path = path then some 0 else none

/-- The index of a middleware in a registry. -/
def find (registry : Registry) (ref : MiddlewareRef) : Except Fault Int :=
  match index? ref.path registry with
  | some index => .ok index
  | none => .error (.unregistered ref.span ref.path)

/-- A method with the indices of its middlewares in a registry. -/
def resolveRpc (registry : Registry) (rpc : Rpc) : Except Fault Rpc :=
  (rpc.middlewares.mapM (find registry)).map fun indices => { rpc with indices }

/-- Methods with the indices of their middlewares in a registry. The first middleware that is
not in it is reported. -/
def resolve (methods : List Rpc) (registry : Registry) : Except Fault (List Rpc) :=
  methods.mapM (resolveRpc registry)

/-- The registry of methods, and the methods with their indices in it. -/
def build (methods : List Rpc) : Except Fault (Registry × List Rpc) :=
  (resolve methods (collect methods)).map fun resolved => (collect methods, resolved)

end Interpose.Registry
