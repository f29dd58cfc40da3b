import Interpose.Proofs.Call.Direct

/-!
# The course of a call

A call takes one of four courses: a hook before it rejects it, the failure of its body ends it at
once, all its hooks run, or a hook after it breaks it off. `Course` lists them with the log and the
answer that each leaves, and every call takes one of them.
-/

namespace Interpose

variable {behavior : Behavior}

/-- What events did that ran one after the other, each given what ran before it. -/
def acts (behavior : Behavior) : List Event → List Event → List Act
  | _, [] => []
  | log, event :: events => behavior log event :: acts behavior (log ++ [event]) events

@[simp] theorem length_acts (log events : List Event) :
    (acts behavior log events).length = events.length := by
  induction events generalizing log with
  | nil => rfl
  | cons event events ih => simp [acts, ih]

theorem acts_append (log events others : List Event) :
    acts behavior log (events ++ others) =
      acts behavior log events ++ acts behavior (log ++ events) others := by
  induction events generalizing log with
  | nil => simp [acts]
  | cons event events ih => simp [acts, ih]

/-- Events all of which return, each with its value. -/
def Gave (behavior : Behavior) (log events : List Event) (values : List Json) : Prop :=
  acts behavior log events = values.map Act.give

theorem Gave.length_eq {log events : List Event} {values : List Json}
    (h : Gave behavior log events values) : values.length = events.length := by
  have hl := congrArg List.length h
  simpa using hl.symm

/-- The counts after one more hook of each of some middlewares. -/
def Counts.addAll (counts : Counts) (paths : List String) : Counts := paths.foldl Counts.add counts

@[simp] theorem Counts.addAll_cons (counts : Counts) (path : String) (paths : List String) :
    counts.addAll (path :: paths) = (counts.add path).addAll paths := rfl

/-- Hooks add to the count of a middleware as often as its path is among theirs. -/
theorem Counts.addAll_apply (counts : Counts) (paths : List String) (path : String) :
    counts.addAll paths path = counts path + paths.count path := by
  induction paths generalizing counts with
  | nil => rfl
  | cons first paths ih =>
    rw [addAll_cons, ih]
    by_cases h : path = first
    · subst h
      rw [add_self, List.count_cons_self]
      omega
    · rw [counts.add_of_ne h, List.count_cons_of_ne (Ne.symm h)]

/-- The hooks before a call, one for each path. -/
def beforeEvents (request : Json) : Counts → List String → List Event
  | _, [] => []
  | counts, path :: paths =>
    .before path (counts path + 1) request :: beforeEvents request (counts.add path) paths

@[simp] theorem length_beforeEvents (request : Json) (counts : Counts) (paths : List String) :
    (beforeEvents request counts paths).length = paths.length := by
  induction paths generalizing counts with
  | nil => rfl
  | cons path paths ih => simp [beforeEvents, ih]

theorem beforeEvents_append (request : Json) (counts : Counts) (paths others : List String) :
    beforeEvents request counts (paths ++ others) =
      beforeEvents request counts paths ++ beforeEvents request (counts.addAll paths) others := by
  induction paths generalizing counts with
  | nil => rfl
  | cons path paths ih => simp [beforeEvents, ih, Counts.addAll]

/-- Only hooks before the call are among them, each on a given path. -/
theorem exists_of_mem_beforeEvents {request : Json} {counts : Counts} {paths : List String}
    {event : Event} (h : event ∈ beforeEvents request counts paths) :
    ∃ path ∈ paths, ∃ count, event = .before path count request := by
  induction paths generalizing counts with
  | nil => simp [beforeEvents] at h
  | cons path paths ih =>
    rcases List.mem_cons.mp h with rfl | h
    · exact ⟨path, List.mem_cons_self, _, rfl⟩
    · obtain ⟨other, ho, count, he⟩ := ih h
      exact ⟨other, List.mem_cons_of_mem _ ho, count, he⟩

/-- The hooks after a call with an outcome, one for each path with a context. -/
def afterEvents (outcome : Outcome) (hooks : List (String × Json)) : List Event :=
  hooks.map fun (path, context) => .after path context outcome

/-- The courses that a call of a declared method can take, by the log and the answer that it
leaves. -/
inductive Course (around : Surroundings) (behavior : Behavior) (declaration : Declaration)
    (request : Json) (counts : Counts) : List Event → Answer → Prop
  /-- A hook before the call raises a failure. -/
  | rejected {entered rest : List String} {path : String} {contexts : List Json} {event : Event}
      {failure : Failure} (hpaths : declaration.middlewares = entered ++ path :: rest)
      (hgave : Gave behavior [] (beforeEvents request counts entered) contexts)
      (hevent : event = .before path (counts.addAll entered path + 1) request)
      (hfail : behavior (beforeEvents request counts entered) event = .fail failure) :
      Course around behavior declaration request counts
        (beforeEvents request counts entered ++ [event]) (around.rejection path failure)
  /-- The body raises a failure that is no outcome. -/
  | aborted {contexts : List Json} {event : Event} {failure : Failure}
      (hgave : Gave behavior [] (beforeEvents request counts declaration.middlewares) contexts)
      (hevent : event = .body declaration.body contexts request)
      (hsettle : around.settle declaration.error
        (behavior (beforeEvents request counts declaration.middlewares) event) = .error failure) :
      Course around behavior declaration request counts
        (beforeEvents request counts declaration.middlewares ++ [event]) (.raised failure none)
  /-- All hooks run. -/
  | finished {contexts values : List Json} {event : Event} {outcome : Outcome}
      (hgave : Gave behavior [] (beforeEvents request counts declaration.middlewares) contexts)
      (hevent : event = .body declaration.body contexts request)
      (hsettle : around.settle declaration.error
        (behavior (beforeEvents request counts declaration.middlewares) event) = .ok outcome)
      (hafter : Gave behavior (beforeEvents request counts declaration.middlewares ++ [event])
        (afterEvents outcome (declaration.middlewares.zip contexts)) values) :
      Course around behavior declaration request counts
        (beforeEvents request counts declaration.middlewares ++ [event] ++
          afterEvents outcome (declaration.middlewares.zip contexts)) (.ofOutcome outcome)
  /-- A hook after the call raises a failure. -/
  | broken {contexts values : List Json} {event : Event} {outcome : Outcome}
      {left rest : List (String × Json)} {hook : String × Json} {failure : Failure}
      (hgave : Gave behavior [] (beforeEvents request counts declaration.middlewares) contexts)
      (hevent : event = .body declaration.body contexts request)
      (hsettle : around.settle declaration.error
        (behavior (beforeEvents request counts declaration.middlewares) event) = .ok outcome)
      (hhooks : declaration.middlewares.zip contexts = left ++ hook :: rest)
      (hafter : Gave behavior (beforeEvents request counts declaration.middlewares ++ [event])
        (afterEvents outcome left) values)
      (hfail : behavior (beforeEvents request counts declaration.middlewares ++ [event] ++
        afterEvents outcome left) (.after hook.1 hook.2 outcome) = .fail failure) :
      Course around behavior declaration request counts
        (beforeEvents request counts declaration.middlewares ++ [event] ++
          afterEvents outcome (left ++ [hook])) (.raised failure none)

namespace Surroundings

variable (around : Surroundings)

variable (behavior) in
/-- The hooks before a call all return, or one of them is the first that raises a failure. -/
theorem enter_cases (rejection : String → Failure → Answer) (request : Json)
    (paths : List String) (contexts : List Json) (log : List Event) (counts : Counts) :
    (∃ values, Gave behavior log (beforeEvents request counts paths) values ∧
      enter behavior rejection request paths contexts log counts =
        .admitted (contexts ++ values) (log ++ beforeEvents request counts paths)
          (counts.addAll paths)) ∨
    ∃ entered path rest values failure, paths = entered ++ path :: rest ∧
      Gave behavior log (beforeEvents request counts entered) values ∧
      behavior (log ++ beforeEvents request counts entered)
        (.before path (counts.addAll entered path + 1) request) = .fail failure ∧
      enter behavior rejection request paths contexts log counts =
        .rejected ⟨log ++ beforeEvents request counts entered ++
            [.before path (counts.addAll entered path + 1) request],
          rejection path failure, (counts.addAll entered).add path⟩ := by
  induction paths generalizing contexts log counts with
  | nil =>
    refine Or.inl ⟨[], rfl, ?_⟩
    simp [enter, beforeEvents, Counts.addAll]
  | cons path paths ih =>
    cases hb : behavior log (.before path (counts path + 1) request) with
    | fail failure =>
      refine Or.inr ⟨[], path, paths, [], failure, rfl, rfl, ?_, ?_⟩
      · simpa [beforeEvents, Counts.addAll] using hb
      · simp [enter, hb, beforeEvents, Counts.addAll]
    | give context =>
      have hstep : enter behavior rejection request (path :: paths) contexts log counts =
          enter behavior rejection request paths (contexts ++ [context])
            (log ++ [.before path (counts path + 1) request]) (counts.add path) := by
        simp [enter, hb]
      rcases ih (contexts ++ [context]) (log ++ [.before path (counts path + 1) request])
          (counts.add path) with
        ⟨values, hgave, henter⟩ | ⟨entered, last, rest, values, failure, rfl, hgave, hfail, henter⟩
      · refine Or.inl ⟨context :: values, ?_, ?_⟩
        · rw [Gave] at hgave ⊢
          simp [beforeEvents, acts, hb, hgave]
        · rw [hstep, henter]
          simp [beforeEvents, Counts.addAll]
      · refine Or.inr ⟨path :: entered, last, rest, context :: values, failure, rfl, ?_, ?_, ?_⟩
        · rw [Gave] at hgave ⊢
          simp [beforeEvents, acts, hb, hgave]
        · simpa [beforeEvents, Counts.addAll] using hfail
        · rw [hstep, henter]
          simp [beforeEvents, Counts.addAll]

variable (behavior) in
/-- The hooks after a call all return, or one of them is the first that raises a failure. -/
theorem leave_cases (outcome : Outcome) (hooks : List (String × Json)) (log : List Event) :
    (∃ values, Gave behavior log (afterEvents outcome hooks) values ∧
      leave behavior outcome hooks log = (log ++ afterEvents outcome hooks, .ofOutcome outcome)) ∨
    ∃ left hook rest values failure, hooks = left ++ hook :: rest ∧
      Gave behavior log (afterEvents outcome left) values ∧
      behavior (log ++ afterEvents outcome left) (.after hook.1 hook.2 outcome) = .fail failure ∧
      leave behavior outcome hooks log =
        (log ++ afterEvents outcome (left ++ [hook]), .raised failure none) := by
  induction hooks generalizing log with
  | nil => exact Or.inl ⟨[], rfl, by simp [leave, afterEvents]⟩
  | cons hook hooks ih =>
    cases hb : behavior log (.after hook.1 hook.2 outcome) with
    | fail failure =>
      refine Or.inr ⟨[], hook, hooks, [], failure, rfl, rfl, ?_, ?_⟩
      · simpa [afterEvents] using hb
      · simp [leave, hb, afterEvents]
    | give value =>
      have hstep : leave behavior outcome (hook :: hooks) log =
          leave behavior outcome hooks (log ++ [.after hook.1 hook.2 outcome]) := by
        simp [leave, hb]
      rcases ih (log ++ [.after hook.1 hook.2 outcome]) with
        ⟨values, hgave, hleave⟩ | ⟨left, last, rest, values, failure, rfl, hgave, hfail, hleave⟩
      · refine Or.inl ⟨value :: values, ?_, ?_⟩
        · rw [Gave] at hgave ⊢
          simp only [afterEvents] at hgave
          simp [afterEvents, acts, hb, hgave]
        · rw [hstep, hleave]
          simp [afterEvents]
      · refine Or.inr ⟨hook :: left, last, rest, value :: values, failure, rfl, ?_, ?_, ?_⟩
        · rw [Gave] at hgave ⊢
          simp only [afterEvents] at hgave
          simp [afterEvents, acts, hb, hgave]
        · simpa [afterEvents] using hfail
        · rw [hstep, hleave]
          simp [afterEvents]

/-- Every call takes one of the courses. -/
theorem course_of_call (declaration : Declaration) (request : Json) (counts : Counts) :
    Course around behavior declaration request counts
      (around.call behavior declaration request counts).log
      (around.call behavior declaration request counts).answer := by
  rcases enter_cases behavior around.rejection request declaration.middlewares [] [] counts with
    ⟨contexts, hgave, henter⟩ |
    ⟨entered, path, rest, contexts, failure, hpaths, hgave, hfail, henter⟩
  · simp only [List.nil_append] at hgave henter
    cases hs : around.settle declaration.error
        (behavior (beforeEvents request counts declaration.middlewares)
          (.body declaration.body contexts request)) with
    | error failure =>
      have hcourse := Course.aborted hgave rfl hs
      simpa [call, henter, hs] using hcourse
    | ok outcome =>
      rcases leave_cases behavior outcome (declaration.middlewares.zip contexts)
          (beforeEvents request counts declaration.middlewares ++
            [.body declaration.body contexts request]) with
        ⟨values, hafter, hleave⟩ |
        ⟨left, hook, rest, values, failure, hhooks, hafter, hfail, hleave⟩
      · have hcourse := Course.finished hgave rfl hs hafter
        simpa [call, henter, hs, hleave] using hcourse
      · have hcourse := Course.broken hgave rfl hs hhooks hafter hfail
        simpa [call, henter, hs, hleave] using hcourse
  · have hcourse : Course around behavior declaration request counts _ _ :=
      Course.rejected hpaths hgave rfl hfail
    simpa [call, henter] using hcourse

end Surroundings

end Interpose
