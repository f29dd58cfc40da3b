import Interpose.Call.Basic
import Interpose.Proofs.Service.Declaration

/-!
# Calls without a wrapper

What a call of a declared method means, said without a registry, indices or fields: the hooks before
the call run on the middlewares of the declared paths, in order, then the body runs on what they
returned, then the hooks after the call run on the same middlewares, each with the context of its
own position.
-/

namespace Interpose

namespace Counts

variable (counts : Counts)

@[simp] theorem zero_apply (path : String) : zero path = 0 := rfl

@[simp] theorem add_self (path : String) : counts.add path path = counts path + 1 := by
  simp [add]

theorem add_of_ne {path other : String} (h : other ≠ path) :
    counts.add path other = counts other := by
  simp [add, h]

end Counts

/-- What a method declares for its calls. -/
structure Declaration where
  /-- The method whose body runs. -/
  body : String
  /-- The paths of its middlewares, in the order in which their hooks run. -/
  middlewares : List String
  /-- The name of the class of errors that becomes part of the outcome. -/
  error : String

/-- What a call meets besides hooks and bodies. -/
structure Surroundings where
  /-- The class of failures with which a middleware rejects calls. -/
  errors : String → ErrorClass
  /-- The class of failures that a declared name stands for. -/
  declared : String → ErrorClass
  /-- What comes of calling a name that no method has. -/
  stray : String → Failure

/-- How the hooks before a call end. -/
inductive Entrance where
  /-- Each of them returned a context. -/
  | admitted (contexts : List Json) (log : List Event) (counts : Counts)
  /-- One of them raised a failure, which ends the call. -/
  | rejected (trace : Trace)

/-- How an outcome is answered. -/
def Answer.ofOutcome : Outcome → Answer
  | .returned result => .value result
  | .failed failure => .raised failure none

namespace Surroundings

variable (around : Surroundings) (behavior : Behavior)

/-- The answer to a call that a middleware rejects with a failure. -/
def rejection (path : String) (failure : Failure) : Answer :=
  if (around.errors path).catches failure then
    match failure.toStatus with
    | .ok status => .raised (.status status) (some failure)
    | .error refusal => .raised refusal none
  else .raised failure none

/-- Run the hooks before a call, one for each path. A failure of one of them is answered with a
rejection. -/
def enter (rejection : String → Failure → Answer) (request : Json) :
    List String → List Json → List Event → Counts → Entrance
  | [], contexts, log, counts => .admitted contexts log counts
  | path :: paths, contexts, log, counts =>
    let event := Event.before path (counts path + 1) request
    match behavior log event with
    | .give context =>
      enter rejection request paths (contexts ++ [context]) (log ++ [event]) (counts.add path)
    | .fail failure => .rejected ⟨log ++ [event], rejection path failure, counts.add path⟩

variable {behavior} in
/-- Hooks that let a call in return one context for each path. -/
theorem length_of_enter {rejection : String → Failure → Answer} {request : Json}
    {paths : List String} {contexts contexts' : List Json} {log log' : List Event}
    {counts counts' : Counts}
    (h : enter behavior rejection request paths contexts log counts =
      .admitted contexts' log' counts') : contexts'.length = contexts.length + paths.length := by
  induction paths generalizing contexts log counts with
  | nil =>
    simp only [enter, Entrance.admitted.injEq] at h
    simp [h.1]
  | cons path paths ih =>
    simp only [enter] at h
    split at h
    · have hl := ih h
      rw [List.length_append, List.length_singleton] at hl
      rw [hl, List.length_cons]
      omega
    · simp at h

/-- The outcome that a body leaves for the hooks after the call, or the failure that ends the
call. -/
def settle (error : String) : Act → Except Failure Outcome
  | .give value => .ok (.returned value)
  | .fail failure =>
    if (around.declared error).catches failure then
      failure.toStatus.map fun status => .failed (.status status)
    else .error failure

/-- Run the hooks after a call, one for each path with the context of its position. -/
def leave (outcome : Outcome) : List (String × Json) → List Event → List Event × Answer
  | [], log => (log, .ofOutcome outcome)
  | (path, context) :: rest, log =>
    let event := Event.after path context outcome
    match behavior log event with
    | .give _ => leave outcome rest (log ++ [event])
    | .fail failure => (log ++ [event], .raised failure none)

/-- Call a declared method. -/
def call (declaration : Declaration) (request : Json) (counts : Counts) : Trace :=
  match enter behavior around.rejection request declaration.middlewares [] [] counts with
  | .rejected trace => trace
  | .admitted contexts log counts =>
    let event := Event.body declaration.body contexts request
    match around.settle declaration.error (behavior log event) with
    | .error failure => ⟨log ++ [event], .raised failure none, counts⟩
    | .ok outcome =>
      let (log, answer) :=
        leave behavior outcome (declaration.middlewares.zip contexts) (log ++ [event])
      ⟨log, answer, counts⟩

end Surroundings

/-- What a method declares for its calls, as it is written. -/
def MethodDef.declaration (method : MethodDef String) : Declaration :=
  ⟨method.name, method.middlewarePaths, method.errorName⟩

namespace ImplDef

/-- The method of a block that a call of a name means: the last one of that name. -/
def method? (impl : ImplDef String) (name : String) : Option (MethodDef String) :=
  impl.methods.reverse.find? fun method => method.name = name

/-- Run a call on a block as it declares. -/
def call (impl : ImplDef String) (around : Surroundings) (counts : Counts) (call : Call) : Trace :=
  match impl.method? call.method with
  | some method => around.call call.behavior method.declaration call.request counts
  | none => ⟨[], .raised (around.stray call.method) none, counts⟩

/-- Run calls one after the other on a block as it declares. -/
def calls (impl : ImplDef String) (around : Surroundings) : Counts → List Call → List Trace
  | _, [] => []
  | counts, call :: calls =>
    let trace := impl.call around counts call
    trace :: impl.calls around trace.counts calls

end ImplDef

end Interpose
