import Interpose.Proofs.Call.Course
import Interpose.Proofs.Call.Refinement

/-!
# What runs in a call

The log of every call of a grounded method is of exactly one of three kinds, however its hooks and
its body act: a hook before the call rejects it, the failure of its body ends it at once, or hooks
run after it up to the first that fails.
-/

namespace Interpose

/-- What the act of a body leaves for the hooks after the call: its value, or the status that a
failure of the declared class becomes. -/
inductive Settles (around : Surroundings) (error : String) : Act → Outcome → Prop
  /-- The body returned. -/
  | returned (value : Json) : Settles around error (.give value) (.returned value)
  /-- The body failed as declared, and its failure converts. -/
  | converted {failure : Failure} {status : Status}
      (hdeclared : (around.declared error).catches failure = true)
      (hstatus : failure.toStatus = .ok status) :
      Settles around error (.fail failure) (.failed (.status status))

variable {around : Surroundings} {behavior : Behavior} {declaration : Declaration} {request : Json}
  {counts : Counts} {log : List Event} {answer : Answer}

theorem settle_give (error : String) (value : Json) :
    around.settle error (.give value) = .ok (.returned value) := rfl

/-- A failure of the body that is not declared stays what it is. -/
theorem settle_of_undeclared {error : String} {failure : Failure}
    (h : (around.declared error).catches failure = false) :
    around.settle error (.fail failure) = .error failure := by
  simp [Surroundings.settle, h]

/-- A declared failure of the body is converted. -/
theorem settle_of_declared {error : String} {failure : Failure}
    (h : (around.declared error).catches failure = true) :
    around.settle error (.fail failure) =
      failure.toStatus.map fun status => .failed (.status status) := by
  simp [Surroundings.settle, h]

/-- A body is settled exactly when it returned or failed as declared with a failure that
converts. -/
theorem settles_of_settle {error : String} {act : Act} {outcome : Outcome}
    (h : around.settle error act = .ok outcome) : Settles around error act outcome := by
  cases act with
  | give value =>
    obtain rfl : Outcome.returned value = outcome := Except.ok.inj h
    exact .returned value
  | fail failure =>
    by_cases hdeclared : (around.declared error).catches failure = true
    · rw [settle_of_declared hdeclared] at h
      obtain ⟨status, hstatus, rfl⟩ := map_eq_ok_iff.mp h
      exact .converted hdeclared hstatus
    · rw [settle_of_undeclared (Bool.of_not_eq_true hdeclared)] at h
      cases h

/-- A body that is not settled failed, and its failure is not declared or does not convert. -/
theorem exists_of_settle_error {error : String} {act : Act} {fault : Failure}
    (h : around.settle error act = .error fault) :
    ∃ failure, act = .fail failure ∧
      ((around.declared error).catches failure = false ∨
        ∃ refusal, failure.toStatus = .error refusal) := by
  cases act with
  | give value => cases h
  | fail failure =>
    refine ⟨failure, rfl, ?_⟩
    by_cases hdeclared : (around.declared error).catches failure = true
    · rw [settle_of_declared hdeclared] at h
      exact .inr ⟨fault, map_eq_error_iff.mp h⟩
    · exact .inl (Bool.of_not_eq_true hdeclared)

section

variable (around behavior declaration request counts)

/-- The log of the hooks before a call, in declared order, up to the first that raises a failure. -/
def RejectedLog (log : List Event) : Prop :=
  ∃ entered path rest contexts failure,
    declaration.middlewares = entered ++ path :: rest ∧
    Gave behavior [] (beforeEvents request counts entered) contexts ∧
    behavior (beforeEvents request counts entered)
      (.before path (counts.addAll entered path + 1) request) = .fail failure ∧
    log = beforeEvents request counts (entered ++ [path])

/-- The log of all hooks before a call and of the body, whose failure is not of the declared class
or is refused when it is converted. -/
def AbortedLog (log : List Event) : Prop :=
  ∃ contexts failure,
    Gave behavior [] (beforeEvents request counts declaration.middlewares) contexts ∧
    behavior (beforeEvents request counts declaration.middlewares)
      (.body declaration.body contexts request) = .fail failure ∧
    ((around.declared declaration.error).catches failure = false ∨
      ∃ refusal, failure.toStatus = .error refusal) ∧
    log = beforeEvents request counts declaration.middlewares ++
      [.body declaration.body contexts request]

/-- The log of all hooks before a call, of the body and of the hooks after it, in declared order, up
to the first that raises a failure. Each hook after the call runs on the context that the hook
before it at the same position returned, and all on one outcome. -/
def SettledLog (log : List Event) : Prop :=
  ∃ contexts outcome,
    Gave behavior [] (beforeEvents request counts declaration.middlewares) contexts ∧
    contexts.length = declaration.middlewares.length ∧
    Settles around declaration.error
      (behavior (beforeEvents request counts declaration.middlewares)
        (.body declaration.body contexts request)) outcome ∧
    ∃ left values, Gave behavior (beforeEvents request counts declaration.middlewares ++
        [.body declaration.body contexts request]) (afterEvents outcome left) values ∧
      ((left = declaration.middlewares.zip contexts ∧
        log = beforeEvents request counts declaration.middlewares ++
          [.body declaration.body contexts request] ++ afterEvents outcome left) ∨
      ∃ path context rest failure,
        declaration.middlewares.zip contexts = left ++ (path, context) :: rest ∧
        behavior (beforeEvents request counts declaration.middlewares ++
          [.body declaration.body contexts request] ++ afterEvents outcome left)
          (.after path context outcome) = .fail failure ∧
        log = beforeEvents request counts declaration.middlewares ++
          [.body declaration.body contexts request] ++
          afterEvents outcome (left ++ [(path, context)]))

end

/-- A call of any course leaves a log of one of the kinds. -/
theorem Course.kind (h : Course around behavior declaration request counts log answer) :
    RejectedLog behavior declaration request counts log ∨
      AbortedLog around behavior declaration request counts log ∨
      SettledLog around behavior declaration request counts log := by
  cases h with
  | @rejected entered rest path contexts event failure hpaths hgave hevent hfail =>
    obtain rfl := hevent
    refine Or.inl ⟨entered, path, rest, contexts, failure, hpaths, hgave, hfail, ?_⟩
    simp [beforeEvents_append, beforeEvents]
  | @aborted contexts event fault hgave hevent hsettle =>
    obtain rfl := hevent
    obtain ⟨failure, hfail, hstatus⟩ := exists_of_settle_error hsettle
    exact Or.inr (Or.inl ⟨contexts, failure, hgave, hfail, hstatus, rfl⟩)
  | @finished contexts values event outcome hgave hevent hsettle hafter =>
    obtain rfl := hevent
    have hlength := hgave.length_eq.trans (length_beforeEvents ..)
    exact Or.inr (Or.inr ⟨contexts, outcome, hgave, hlength, settles_of_settle hsettle, _, values,
      hafter, Or.inl ⟨rfl, rfl⟩⟩)
  | @broken contexts values event outcome left rest hook failure hgave hevent hsettle hhooks hafter
      hfail =>
    obtain rfl := hevent
    have hlength := hgave.length_eq.trans (length_beforeEvents ..)
    refine Or.inr (Or.inr ⟨contexts, outcome, hgave, hlength, settles_of_settle hsettle, left,
      values, hafter, ?_⟩)
    exact Or.inr ⟨hook.1, hook.2, rest, failure, hhooks, hfail, rfl⟩

/-- Nothing but hooks before the call runs in a rejected call. -/
theorem RejectedLog.body_notMem (h : RejectedLog behavior declaration request counts log)
    (body : String) (contexts : List Json) (given : Json) : .body body contexts given ∉ log := by
  obtain ⟨entered, path, rest, _, _, _, _, _, rfl⟩ := h
  intro hmem
  obtain ⟨_, _, _, hevent⟩ := exists_of_mem_beforeEvents hmem
  simp at hevent

/-- The body runs in an aborted call. -/
theorem AbortedLog.exists_body_mem (h : AbortedLog around behavior declaration request counts log) :
    ∃ contexts, .body declaration.body contexts request ∈ log := by
  obtain ⟨contexts, _, _, _, _, rfl⟩ := h
  exact ⟨contexts, by simp⟩

/-- The hooks before a settled call run, then its body, which is settled. -/
theorem SettledLog.exists_eq_append
    (h : SettledLog around behavior declaration request counts log) :
    ∃ contexts outcome later,
      Settles around declaration.error
        (behavior (beforeEvents request counts declaration.middlewares)
          (.body declaration.body contexts request)) outcome ∧
      log = beforeEvents request counts declaration.middlewares ++
        .body declaration.body contexts request :: later := by
  obtain ⟨contexts, outcome, _, _, hsettles, left, _, _,
    ⟨_, rfl⟩ | ⟨path, context, _, _, _, _, rfl⟩⟩ := h
  · exact ⟨contexts, outcome, afterEvents outcome left, hsettles, by simp⟩
  · exact ⟨contexts, outcome, afterEvents outcome (left ++ [(path, context)]), hsettles, by simp⟩

/-- The body runs in a settled call. -/
theorem SettledLog.exists_body_mem
    (h : SettledLog around behavior declaration request counts log) :
    ∃ contexts, .body declaration.body contexts request ∈ log := by
  obtain ⟨contexts, _, _, _, rfl⟩ := h.exists_eq_append
  exact ⟨contexts, by simp⟩

/-- No log is of the aborted and of the settled kind: its body is settled or it is not. -/
theorem AbortedLog.not_settledLog (h : AbortedLog around behavior declaration request counts log) :
    ¬ SettledLog around behavior declaration request counts log := by
  intro hsettled
  obtain ⟨contexts, outcome, later, hsettles, hlog⟩ := hsettled.exists_eq_append
  obtain ⟨contexts', failure, _, hfail, hstatus, rfl⟩ := h
  obtain ⟨hevent, _⟩ := List.cons.inj (List.append_cancel_left hlog)
  obtain rfl : contexts' = contexts := (Event.body.inj hevent).2.1
  rw [hfail] at hsettles
  cases hsettles with
  | converted hdeclared hconverted =>
    rcases hstatus with hundeclared | ⟨refusal, hrefusal⟩
    · rw [hdeclared] at hundeclared
      cases hundeclared
    · rw [hconverted] at hrefusal
      cases hrefusal

/-- No log is of two of the kinds. -/
theorem Course.kind_unique (h : Course around behavior declaration request counts log answer) :
    (RejectedLog behavior declaration request counts log ∧
      ¬ AbortedLog around behavior declaration request counts log ∧
      ¬ SettledLog around behavior declaration request counts log) ∨
    (¬ RejectedLog behavior declaration request counts log ∧
      AbortedLog around behavior declaration request counts log ∧
      ¬ SettledLog around behavior declaration request counts log) ∨
    (¬ RejectedLog behavior declaration request counts log ∧
      ¬ AbortedLog around behavior declaration request counts log ∧
      SettledLog around behavior declaration request counts log) := by
  have haborts (hrejected : RejectedLog behavior declaration request counts log)
      (haborted : AbortedLog around behavior declaration request counts log) : False := by
    obtain ⟨contexts, hbody⟩ := haborted.exists_body_mem
    exact hrejected.body_notMem _ _ _ hbody
  have hsettles (hrejected : RejectedLog behavior declaration request counts log)
      (hsettled : SettledLog around behavior declaration request counts log) : False := by
    obtain ⟨contexts, hbody⟩ := hsettled.exists_body_mem
    exact hrejected.body_notMem _ _ _ hbody
  rcases h.kind with hrejected | haborted | hsettled
  · exact Or.inl ⟨hrejected, haborts hrejected, hsettles hrejected⟩
  · exact Or.inr (Or.inl ⟨fun hrejected => haborts hrejected haborted, haborted,
      haborted.not_settledLog⟩)
  · exact Or.inr (Or.inr ⟨fun hrejected => hsettles hrejected hsettled,
      fun haborted => haborted.not_settledLog hsettled, hsettled⟩)

/-- The trace law. The log of a call of a grounded method is of exactly one of the three kinds, and
the body in it is the method's own one. -/
theorem log_kind_of_runMethod {impl : ImplDef String} {service : Service}
    (h : impl.service = .ok service) {method : MethodDef String} {rpc : Rpc}
    (hmem : (method, rpc) ∈ impl.methods.zip service.methods) {names : List (String × Referent)}
    {around : Surroundings}
    (hg : method.Grounded impl (service.globals names) (around.declared method.errorName))
    (behavior : Behavior) (request : Json) (counts : Counts) :
    let declaration : Declaration := ⟨method.name, method.middlewarePaths, method.errorName⟩
    let log := ((service.setting names around.errors behavior).runMethod rpc.wrapperMethod request
      counts).log
    (RejectedLog behavior declaration request counts log ∧
      ¬ AbortedLog around behavior declaration request counts log ∧
      ¬ SettledLog around behavior declaration request counts log) ∨
    (¬ RejectedLog behavior declaration request counts log ∧
      AbortedLog around behavior declaration request counts log ∧
      ¬ SettledLog around behavior declaration request counts log) ∨
    (¬ RejectedLog behavior declaration request counts log ∧
      ¬ AbortedLog around behavior declaration request counts log ∧
      SettledLog around behavior declaration request counts log) := by
  intro declaration log
  obtain ⟨hmethod, hd, hstep⟩ := declares_of_mem_zip h hmem
  have hlog : log = (around.call behavior declaration request counts).log :=
    congrArg Trace.log (hg.runMethod_eq_call h hmethod hd hstep behavior request counts)
  rw [hlog]
  exact (around.course_of_call declaration request counts).kind_unique

/-- The trace law of a method that lists a middleware twice. -/
theorem log_kind_greeter :
    let declaration : Declaration := ⟨"say_hello", ["Log", "Auth", "Log"], "ValueError"⟩
    let around : Surroundings := ⟨fun _ => .general, .known, .noName⟩
    let log := ((greeterService.setting greeterNames around.errors counting).runMethod
      (greeterService.methods[0]).wrapperMethod .null .zero).log
    (RejectedLog counting declaration .null .zero log ∧
      ¬ AbortedLog around counting declaration .null .zero log ∧
      ¬ SettledLog around counting declaration .null .zero log) ∨
    (¬ RejectedLog counting declaration .null .zero log ∧
      AbortedLog around counting declaration .null .zero log ∧
      ¬ SettledLog around counting declaration .null .zero log) ∨
    (¬ RejectedLog counting declaration .null .zero log ∧
      ¬ AbortedLog around counting declaration .null .zero log ∧
      SettledLog around counting declaration .null .zero log) := by
  intro declaration around log
  have hground : greeter.methods[0].Grounded greeter (greeterService.globals greeterNames)
      (around.declared greeter.methods[0].errorName) :=
    grounded_greeter.method List.mem_cons_self
  have hmem : (greeter.methods[0], greeterService.methods[0]) ∈
      greeter.methods.zip greeterService.methods := List.mem_cons_self
  exact log_kind_of_runMethod service_greeter hmem hground counting .null .zero

/-- A block one of whose bodies takes the place of another one. -/
def replaced : ImplDef String :=
  { greeter with
    name := "Impl"
    methods := [greeting "Impl__y" [] "ValueError", greeting "_y" [] "ValueError"] }

/-- The service of that block. -/
def replacedService : Service :=
  { greeterService with
    implementor := "Impl"
    methods := [greetingRpc "Impl__y" [] "ValueError" [], greetingRpc "_y" [] "ValueError" []]
    registry := [] }

/-- The block one of whose bodies takes the place of another one has a service. -/
theorem service_replaced : replaced.service = .ok replacedService :=
  service_greetings "Impl" [("Impl__y", "ValueError"), ("_y", "ValueError")]

/-- Not every call of a method whose name begins plainly leaves a log of one of the kinds, whatever
the declared classes are: a body of another name may run. -/
theorem not_log_kind :
    replaced.service = .ok replacedService ∧ BeginsPlain replaced.methods[0].name ∧
      let declaration : Declaration := ⟨"Impl__y", [], "ValueError"⟩
      let log := ((replacedService.setting greeterNames (fun _ => .general) failing).runMethod
        (replacedService.methods[0]).wrapperMethod .null .zero).log
      ∀ around, ¬ RejectedLog failing declaration .null .zero log ∧
        ¬ AbortedLog around failing declaration .null .zero log ∧
        ¬ SettledLog around failing declaration .null .zero log := by
  refine ⟨service_replaced, by decide +kernel, ?_⟩
  intro declaration log around
  have hlog : log = [.body "_y" [] .null] := by decide +kernel
  have hother (contexts : List Json) : .body "Impl__y" contexts .null ∉ log := by simp [hlog]
  refine ⟨fun hrejected => ?_, fun haborted => ?_, fun hsettled => ?_⟩
  · obtain ⟨entered, path, rest, _, _, hpaths, _⟩ := hrejected
    simp [declaration] at hpaths
  · obtain ⟨contexts, hbody⟩ := haborted.exists_body_mem
    exact hother contexts hbody
  · obtain ⟨contexts, hbody⟩ := hsettled.exists_body_mem
    exact hother contexts hbody

end Interpose
