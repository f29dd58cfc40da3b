import Interpose.Proofs.Call.Kinds

/-!
# How a call is answered

The answer to a call depends on the first failure of what ran in it and on nothing else but a later
failure of a hook after the call: a failure is raised as it is, or as the status that it becomes,
and without a failure the answer is the value of the body.
-/

namespace Interpose

variable {around : Surroundings} {behavior : Behavior} {declaration : Declaration} {request : Json}
  {counts : Counts} {log : List Event} {answer : Answer}

/-- An event of a log and what it did, given what ran before it. -/
def Did (behavior : Behavior) (log : List Event) (event : Event) (act : Act) : Prop :=
  (event, act) ∈ log.zip (acts behavior [] log)

/-- Of two parts of a log, one holds each event. -/
theorem zip_acts_append (log events others : List Event) :
    (events ++ others).zip (acts behavior log (events ++ others)) =
      events.zip (acts behavior log events) ++
        others.zip (acts behavior (log ++ events) others) := by
  rw [acts_append, List.zip_append (length_acts log events).symm]

/-- No event raises a failure among those that all return. -/
theorem Gave.fail_notMem {log events : List Event} {values : List Json}
    (h : Gave behavior log events values) (event : Event) (failure : Failure) :
    (event, .fail failure) ∉ events.zip (acts behavior log events) := by
  rw [show acts behavior log events = values.map Act.give from h]
  intro hmem
  obtain ⟨value, _, hvalue⟩ := List.mem_map.mp (List.of_mem_zip hmem).2
  simp at hvalue

/-- A failure that follows events that all return is raised by one of the later events. -/
theorem Gave.fail_mem_append_iff {log events others : List Event} {values : List Json}
    (h : Gave behavior log events values) (event : Event) (failure : Failure) :
    (event, .fail failure) ∈ (events ++ others).zip (acts behavior log (events ++ others)) ↔
      (event, .fail failure) ∈ others.zip (acts behavior (log ++ events) others) := by
  rw [zip_acts_append, List.mem_append]
  exact ⟨fun hmem => hmem.resolve_left (h.fail_notMem event failure), .inr⟩

/-- Events that all return after others that all return. -/
theorem Gave.append {log events others : List Event} {values given : List Json}
    (h : Gave behavior log events values) (ho : Gave behavior (log ++ events) others given) :
    Gave behavior log (events ++ others) (values ++ given) := by
  rw [Gave] at h ho ⊢
  rw [acts_append, h, ho, List.map_append]

/-- A single event that returns. -/
theorem gave_singleton {log : List Event} {event : Event} {value : Json}
    (h : behavior log event = .give value) : Gave behavior log [event] [value] := by
  simp [Gave, acts, h]

/-- A failure in a log that ends with the first event that raises one. -/
theorem Gave.did_concat {events : List Event} {values : List Json} {event last : Event}
    {failure raised : Failure} (h : Gave behavior [] events values)
    (hlast : behavior events last = .fail raised) :
    Did behavior (events ++ [last]) event (.fail failure) ↔ event = last ∧ failure = raised := by
  rw [Did, h.fail_mem_append_iff]
  simp [acts, hlast]

/-- The last event of a log did what it does after all others. -/
theorem did_concat_self (events : List Event) (last : Event) :
    Did behavior (events ++ [last]) last (behavior events last) := by
  rw [Did, zip_acts_append, List.mem_append]
  exact Or.inr (by simp [acts])

/-- The hooks after a call that follow a body are the last events of the log. -/
theorem afterEvents_concat (outcome : Outcome) (left : List (String × Json))
    (hook : String × Json) :
    afterEvents outcome (left ++ [hook]) =
      afterEvents outcome left ++ [.after hook.1 hook.2 outcome] := by
  simp [afterEvents]

/-- A rejected call raises a failure. -/
theorem Surroundings.exists_rejection_eq_raised (around : Surroundings) (path : String)
    (failure : Failure) : ∃ raised cause, around.rejection path failure = .raised raised cause := by
  unfold Surroundings.rejection
  split
  · cases failure.toStatus with
    | ok status => exact ⟨_, _, rfl⟩
    | error refusal => exact ⟨_, _, rfl⟩
  · exact ⟨_, _, rfl⟩

/-- A body whose outcome is a value returned it. -/
theorem give_of_settle_returned {error : String} {act : Act} {value : Json}
    (h : around.settle error act = .ok (.returned value)) : act = .give value := by
  have hsettles := settles_of_settle h
  cases hsettles with
  | returned => rfl

/-- In a call that is answered with a value everything returns, and the body returns that value. -/
theorem Course.gave_of_value (h : Course around behavior declaration request counts log answer)
    {value : Json} (hvalue : answer = .value value) :
    (∃ values, Gave behavior [] log values) ∧
      ∃ contexts, Did behavior log (.body declaration.body contexts request) (.give value) := by
  cases h with
  | @rejected entered rest path contexts event failure =>
    obtain ⟨raised, cause, hraised⟩ := around.exists_rejection_eq_raised path failure
    rw [hraised] at hvalue
    simp at hvalue
  | aborted => simp at hvalue
  | broken => simp at hvalue
  | @finished contexts values event outcome hgave hevent hsettle hafter =>
    cases outcome with
    | failed failure => simp [Answer.ofOutcome] at hvalue
    | returned result =>
      obtain rfl : result = value := by simpa [Answer.ofOutcome] using hvalue
      have hgive := give_of_settle_returned hsettle
      refine ⟨⟨_, (hgave.append (gave_singleton hgive)).append hafter⟩, contexts, ?_⟩
      rw [Did, List.append_assoc, zip_acts_append, List.mem_append]
      refine Or.inr ?_
      rw [zip_acts_append, List.mem_append]
      simp [acts, hevent, ← hgive]

/-- The first failure of a call and what it makes of the answer. A later failure can only be that of
a hook after a body whose failure was settled. -/
theorem Course.fail_cases (h : Course around behavior declaration request counts log answer)
    {event : Event} {failure : Failure} (hdid : Did behavior log event (.fail failure)) :
    (∃ path count, event = .before path count request ∧
      answer = around.rejection path failure) ∨
    (∃ contexts fault, event = .body declaration.body contexts request ∧
      around.settle declaration.error (.fail failure) = .error fault ∧
      answer = .raised fault none) ∨
    (∃ contexts outcome, event = .body declaration.body contexts request ∧
      around.settle declaration.error (.fail failure) = .ok outcome ∧
      (answer = .ofOutcome outcome ∨
        ∃ path context other, Did behavior log (.after path context outcome) (.fail other))) ∨
    ∃ path context outcome, event = .after path context outcome ∧
      answer = .raised failure none := by
  cases h with
  | @rejected entered rest path contexts hook raised hpaths hgave hhook hfail =>
    obtain ⟨rfl, rfl⟩ := (hgave.did_concat hfail).mp hdid
    exact Or.inl ⟨path, _, hhook, rfl⟩
  | @aborted contexts body fault hgave hbody hsettle =>
    obtain ⟨raised, hraised, _⟩ := exists_of_settle_error hsettle
    obtain ⟨rfl, rfl⟩ := (hgave.did_concat hraised).mp hdid
    rw [hraised] at hsettle
    exact Or.inr (Or.inl ⟨contexts, fault, hbody, hsettle, rfl⟩)
  | @finished contexts values body outcome hgave hbody hsettle hafter =>
    rw [Did, List.append_assoc, hgave.fail_mem_append_iff, zip_acts_append, List.mem_append] at hdid
    obtain ⟨rfl, hact⟩ : event = body ∧ Act.fail failure = behavior
        (beforeEvents request counts declaration.middlewares) body := by
      simpa [acts] using hdid.resolve_right (hafter.fail_notMem event failure)
    rw [← hact] at hsettle
    exact Or.inr (Or.inr (Or.inl ⟨contexts, outcome, hbody, hsettle, Or.inl rfl⟩))
  | @broken contexts values body outcome left rest hook raised hgave hbody hsettle hhooks hafter
      hfail =>
    have hlast : Did behavior (beforeEvents request counts declaration.middlewares ++ [body] ++
        afterEvents outcome (left ++ [hook])) (.after hook.1 hook.2 outcome) (.fail raised) := by
      rw [afterEvents_concat, ← List.append_assoc, ← hfail]
      exact did_concat_self _ _
    rw [Did, afterEvents_concat, List.append_assoc, hgave.fail_mem_append_iff, zip_acts_append,
      List.mem_append] at hdid
    rcases hdid with hdid | hdid
    · obtain ⟨rfl, hact⟩ : event = body ∧ Act.fail failure = behavior
          (beforeEvents request counts declaration.middlewares) body := by simpa [acts] using hdid
      rw [← hact] at hsettle
      refine Or.inr (Or.inr (Or.inl ⟨contexts, outcome, hbody, hsettle, ?_⟩))
      exact Or.inr ⟨_, _, raised, hlast⟩
    · rw [List.nil_append, hafter.fail_mem_append_iff] at hdid
      simp only [acts, hfail] at hdid
      obtain ⟨rfl, rfl⟩ : event = .after hook.1 hook.2 outcome ∧ failure = raised := by
        simpa using hdid
      exact Or.inr (Or.inr (Or.inr ⟨hook.1, hook.2, outcome, rfl, rfl⟩))

/-- A call in which nothing fails is answered with a value. -/
theorem Course.value_of_no_failure
    (h : Course around behavior declaration request counts log answer)
    (hnone : ∀ event failure, ¬ Did behavior log event (.fail failure)) :
    ∃ value, answer = .value value := by
  cases h with
  | @rejected entered rest path contexts hook raised hpaths hgave hhook hfail =>
    exact absurd ((hgave.did_concat hfail).mpr ⟨rfl, rfl⟩) (hnone _ _)
  | @aborted contexts body fault hgave hbody hsettle =>
    obtain ⟨raised, hraised, _⟩ := exists_of_settle_error hsettle
    exact absurd ((hgave.did_concat hraised).mpr ⟨rfl, rfl⟩) (hnone _ _)
  | @finished contexts values body outcome hgave hbody hsettle hafter =>
    cases hact : behavior (beforeEvents request counts declaration.middlewares) body with
    | give value =>
      rw [hact, settle_give] at hsettle
      obtain rfl := Except.ok.inj hsettle
      exact ⟨value, rfl⟩
    | fail failure =>
      refine absurd ?_ (hnone body failure)
      rw [Did, List.append_assoc, zip_acts_append, List.mem_append, zip_acts_append,
        List.mem_append]
      simp [acts, hact]
  | @broken contexts values body outcome left rest hook raised hgave hbody hsettle hhooks hafter
      hfail =>
    refine absurd ?_ (hnone (.after hook.1 hook.2 outcome) raised)
    rw [afterEvents_concat, ← List.append_assoc, ← hfail]
    exact did_concat_self _ _

/-- How the answer to a call depends on what its hooks and its body did. -/
structure Accounted (around : Surroundings) (behavior : Behavior) (declaration : Declaration)
    (log : List Event) (answer : Answer) : Prop where
  /-- The answer is a value exactly when nothing raised a failure. -/
  value_iff : (∃ value, answer = .value value) ↔
    ∀ event failure, ¬ Did behavior log event (.fail failure)
  /-- The value is the one that the body returned. -/
  value_of_body : ∀ value, answer = .value value →
    ∃ contexts given, Did behavior log (.body declaration.body contexts given) (.give value)
  /-- A middleware that fails with its own class of failures rejects the call with the status that
  the failure becomes, because of the failure. -/
  rejected : ∀ path count given failure status,
    Did behavior log (.before path count given) (.fail failure) →
    (around.errors path).catches failure → failure.toStatus = .ok status →
    answer = .raised (.status status) (some failure)
  /-- A failure that is a status already is raised itself. -/
  rejected_status : ∀ path count given status,
    Did behavior log (.before path count given) (.fail (.status status)) →
    (around.errors path).catches (.status status) →
    answer = .raised (.status status) (some (.status status))
  /-- A middleware's failure whose conversion is refused is replaced by the refusal. -/
  rejected_refused : ∀ path count given failure refusal,
    Did behavior log (.before path count given) (.fail failure) →
    (around.errors path).catches failure → failure.toStatus = .error refusal →
    refusal.errorClass.name = "TypeError" ∧ answer = .raised refusal none
  /-- Any other failure of a middleware before the call is raised as it is. -/
  rejected_undeclared : ∀ path count given failure,
    Did behavior log (.before path count given) (.fail failure) →
    (around.errors path).catches failure = false → answer = .raised failure none
  /-- A failure of the body that is not of the declared class is raised as it is. -/
  body_undeclared : ∀ name contexts given failure,
    Did behavior log (.body name contexts given) (.fail failure) →
    (around.declared declaration.error).catches failure = false →
    answer = .raised failure none
  /-- A declared failure of the body whose conversion is refused is replaced by the refusal. -/
  body_refused : ∀ name contexts given failure refusal,
    Did behavior log (.body name contexts given) (.fail failure) →
    (around.declared declaration.error).catches failure →
    failure.toStatus = .error refusal →
    refusal.errorClass.name = "TypeError" ∧ answer = .raised refusal none
  /-- Any other failure of the body becomes a status that is raised, unless a hook after the call
  fails. -/
  body_declared : ∀ name contexts given failure status,
    Did behavior log (.body name contexts given) (.fail failure) →
    (around.declared declaration.error).catches failure →
    failure.toStatus = .ok status →
    (∀ path context outcome other,
      ¬ Did behavior log (.after path context outcome) (.fail other)) →
    answer = .raised (.status status) none
  /-- A failure of a hook after the call is raised as it is, whatever the body did. -/
  after : ∀ path context outcome failure,
    Did behavior log (.after path context outcome) (.fail failure) → answer = .raised failure none

/-- Only a conversion that gives no status is refused. -/
theorem Failure.errorClass_of_toStatus_error {failure refusal : Failure}
    (h : failure.toStatus = .error refusal) : refusal.errorClass.name = "TypeError" := by
  unfold Failure.toStatus at h
  split at h
  · cases h
  · cases h
  · obtain rfl := Except.error.inj h
    rfl
  · cases h
  · obtain rfl := Except.error.inj h
    rfl
  · cases h

/-- A failing hook before a call makes the answer a rejection. -/
theorem Course.answer_of_before (h : Course around behavior declaration request counts log answer)
    {path : String} {count : Nat} {given : Json} {failure : Failure}
    (hdid : Did behavior log (.before path count given) (.fail failure)) :
    answer = around.rejection path failure := by
  rcases h.fail_cases hdid with ⟨other, _, hevent, hanswer⟩ | ⟨_, _, hevent, _⟩ |
    ⟨_, _, hevent, _⟩ | ⟨_, _, _, hevent, _⟩
  · obtain ⟨rfl, _, _⟩ := Event.before.inj hevent
    exact hanswer
  · simp at hevent
  · simp at hevent
  · simp at hevent

/-- A failing hook after a call makes the answer its failure. -/
theorem Course.answer_of_after (h : Course around behavior declaration request counts log answer)
    {path : String} {context : Json} {outcome : Outcome} {failure : Failure}
    (hdid : Did behavior log (.after path context outcome) (.fail failure)) :
    answer = .raised failure none := by
  rcases h.fail_cases hdid with ⟨_, _, hevent, _⟩ | ⟨_, _, hevent, _⟩ | ⟨_, _, hevent, _⟩ |
    ⟨_, _, _, _, hanswer⟩
  · simp at hevent
  · simp at hevent
  · simp at hevent
  · exact hanswer

/-- A failing body makes the answer what settling raises, or what the settled outcome raises unless
a hook after the call fails. -/
theorem Course.answer_of_body (h : Course around behavior declaration request counts log answer)
    {name : String} {contexts : List Json} {given : Json} {failure : Failure}
    (hdid : Did behavior log (.body name contexts given) (.fail failure)) :
    match around.settle declaration.error (.fail failure) with
    | .error fault => answer = .raised fault none
    | .ok outcome => answer = .ofOutcome outcome ∨
        ∃ path context other, Did behavior log (.after path context outcome) (.fail other) := by
  rcases h.fail_cases hdid with ⟨_, _, hevent, _⟩ | ⟨_, _, hevent, hsettle, hanswer⟩ |
    ⟨_, _, hevent, hsettle, hanswer⟩ | ⟨_, _, _, hevent, _⟩
  · simp at hevent
  · obtain ⟨_, rfl, rfl⟩ := Event.body.inj hevent
    rw [hsettle]
    exact hanswer
  · obtain ⟨_, rfl, rfl⟩ := Event.body.inj hevent
    rw [hsettle]
    exact hanswer
  · simp at hevent

/-- The answer of a call of any course is accounted for. -/
theorem Course.accounted (h : Course around behavior declaration request counts log answer) :
    Accounted around behavior declaration log answer where
  value_iff := by
    refine ⟨fun ⟨value, hvalue⟩ event failure hdid => ?_, h.value_of_no_failure⟩
    obtain ⟨⟨values, hgave⟩, _⟩ := h.gave_of_value hvalue
    exact hgave.fail_notMem event failure hdid
  value_of_body value hvalue := by
    obtain ⟨_, contexts, hdid⟩ := h.gave_of_value hvalue
    exact ⟨contexts, request, hdid⟩
  rejected path count given failure status hdid hcatch hstatus := by
    rw [h.answer_of_before hdid, Surroundings.rejection, if_pos hcatch, hstatus]
  rejected_status path count given status hdid hcatch := by
    rw [h.answer_of_before hdid, Surroundings.rejection, if_pos hcatch]
    rfl
  rejected_refused path count given failure refusal hdid hcatch hstatus := by
    refine ⟨Failure.errorClass_of_toStatus_error hstatus, ?_⟩
    rw [h.answer_of_before hdid, Surroundings.rejection, if_pos hcatch, hstatus]
  rejected_undeclared path count given failure hdid hcatch := by
    rw [h.answer_of_before hdid, Surroundings.rejection, hcatch]
    rfl
  body_undeclared name contexts given failure hdid hdeclared := by
    have hanswer := h.answer_of_body hdid
    rw [settle_of_undeclared hdeclared] at hanswer
    exact hanswer
  body_refused name contexts given failure refusal hdid hdeclared hstatus := by
    have hanswer := h.answer_of_body hdid
    rw [settle_of_declared hdeclared, hstatus] at hanswer
    exact ⟨Failure.errorClass_of_toStatus_error hstatus, hanswer⟩
  body_declared name contexts given failure status hdid hdeclared hstatus hafter := by
    have hanswer := h.answer_of_body hdid
    rw [settle_of_declared hdeclared, hstatus] at hanswer
    rcases hanswer with hanswer | ⟨path, context, other, hother⟩
    · exact hanswer
    · exact absurd hother (hafter path context _ other)
  after path context outcome failure hdid := h.answer_of_after hdid

/-- The outcome law. The answer to a call of a grounded method is accounted for by what its hooks
and its body did. -/
theorem accounted_of_runMethod {impl : ImplDef String} {service : Service}
    (h : impl.service = .ok service) {method : MethodDef String} {rpc : Rpc}
    (hmem : (method, rpc) ∈ impl.methods.zip service.methods) {names : List (String × Referent)}
    {around : Surroundings}
    (hg : method.Grounded impl (service.globals names) (around.declared method.errorName))
    (behavior : Behavior) (request : Json) (counts : Counts) :
    let declaration : Declaration := ⟨method.name, method.middlewarePaths, method.errorName⟩
    let trace :=
      (service.setting names around.errors behavior).runMethod rpc.wrapperMethod request counts
    Accounted around behavior declaration trace.log trace.answer := by
  intro declaration trace
  obtain ⟨hmethod, hd, hstep⟩ := declares_of_mem_zip h hmem
  have htrace : trace = around.call behavior declaration request counts :=
    hg.runMethod_eq_call h hmethod hd hstep behavior request counts
  rw [htrace]
  exact (around.course_of_call declaration request counts).accounted

/-- The outcome law of a method whose body fails as it declares. -/
theorem accounted_greeter :
    let around : Surroundings := ⟨fun _ => .general, .known, .noName⟩
    let trace := (greeterService.setting greeterNames around.errors counting).runMethod
      (greeterService.methods[1]).wrapperMethod .null .zero
    Accounted around counting ⟨"ping", ["Auth"], "ValueError"⟩ trace.log trace.answer := by
  intro around trace
  have hmem : (greeter.methods[1], greeterService.methods[1]) ∈
      greeter.methods.zip greeterService.methods := List.mem_cons_of_mem _ List.mem_cons_self
  have hground : greeter.methods[1].Grounded greeter (greeterService.globals greeterNames)
      (around.declared greeter.methods[1].errorName) :=
    grounded_greeter.method (List.mem_cons_of_mem _ List.mem_cons_self)
  exact accounted_of_runMethod service_greeter hmem hground counting .null .zero

/-- A block whose method declares an error that its module does not have. -/
def undefined : ImplDef String := { greeter with methods := [greeting "ping" [] "Missing"] }

/-- The service of that block. -/
def undefinedService : Service :=
  { greeterService with methods := [greetingRpc "ping" [] "Missing" []], registry := [] }

/-- The block whose method declares an error that its module does not have has a service. -/
theorem service_undefined : undefined.service = .ok undefinedService :=
  service_greetings "Greeter" [("ping", "Missing")]

/-- Not every answer is accounted for, whatever the declared classes are: when the declared name
stands for nothing, a failure of the body is replaced by that of looking the name up. -/
theorem not_accounted :
    undefined.service = .ok undefinedService ∧ BeginsPlain undefined.methods[0].name ∧
      let trace := (undefinedService.setting greeterNames (fun _ => .general) failing).runMethod
        (undefinedService.methods[0]).wrapperMethod .null .zero
      ∀ around, ¬ Accounted around failing ⟨"ping", [], "Missing"⟩ trace.log trace.answer := by
  refine ⟨service_undefined, by decide +kernel, ?_⟩
  intro trace around haccounted
  have hlog : trace.log = [.body "ping" [] .null] := by decide +kernel
  have hanswer : trace.answer = .raised (.noName "Missing") none := by decide +kernel
  have hdid : Did failing trace.log (.body "ping" [] .null) (.fail (.plain .value [])) := by
    simp [hlog, Did, acts, failing]
  by_cases hdeclared : (around.declared "Missing").catches (.plain .value []) = true
  · have hstatus := haccounted.body_declared _ _ _ _ _ hdid hdeclared rfl fun _ _ _ _ hafter => by
      simp [hlog, Did, acts, failing] at hafter
    rw [hanswer] at hstatus
    simp at hstatus
  · have hsame := haccounted.body_undeclared _ _ _ _ hdid (Bool.of_not_eq_true hdeclared)
    rw [hanswer] at hsame
    simp at hsame

end Interpose
