import Interpose.Proofs.Call.Counting
import Interpose.Proofs.Call.Kinds

/-!
# Calls that share no middleware

A call touches the counts of its own middlewares only, up to the one that rejects it, and what it
logs and answers depends on these counts alone. Two calls next to each other that share no
middleware can therefore be exchanged. `Bookkeeping` puts this together with what the counts of a
wrapper are at any point of a run.
-/

namespace Interpose

/-! ## Counts that agree -/

/-- Counts that are the same for some middlewares. -/
def Counts.AgreeOn (paths : List String) (counts others : Counts) : Prop :=
  ∀ path ∈ paths, counts path = others path

theorem Counts.AgreeOn.add {paths : List String} {counts others : Counts}
    (h : counts.AgreeOn paths others) (path : String) :
    (counts.add path).AgreeOn paths (others.add path) := by
  intro other hother
  by_cases heq : other = path
  · subst heq
    rw [counts.add_self, others.add_self, h other hother]
  · rw [counts.add_of_ne heq, others.add_of_ne heq, h other hother]

/-- The statements that run hooks are those of the fields. -/
theorem exists_of_mem_hooks {hook : Nat → Int → Statement} {first : Nat} {fields : List Int}
    {statement : Statement} (h : statement ∈ hooks hook first fields) :
    ∃ position, ∃ field ∈ fields, statement = hook position field := by
  induction fields generalizing first with
  | nil => simp [hooks] at h
  | cons field fields ih =>
    rcases List.mem_cons.mp h with rfl | h
    · exact ⟨first, field, List.mem_cons_self, rfl⟩
    · obtain ⟨position, other, hother, heq⟩ := ih h
      exact ⟨position, other, List.mem_cons_of_mem _ hother, heq⟩

/-- The same progress from counts that are the same for some middlewares. -/
inductive Progress.Alike (paths : List String) : Progress → Progress → Prop
  /-- Both calls go on. -/
  | next {frame : Frame} {counts : Counts} (h : frame.counts.AgreeOn paths counts) :
      Alike paths (.next frame) (.next (frame.recount counts))
  /-- Both calls end with the same answer. -/
  | ended {frame : Frame} {counts : Counts} (h : frame.counts.AgreeOn paths counts)
      (answer : Answer) : Alike paths (.ended frame answer) (.ended (frame.recount counts) answer)

namespace Setting

variable (setting : Setting) {paths : List String} {frame : Frame} {counts : Counts}

/-- A statement that runs no hook before the call but that of a given middleware. -/
def Within (paths : List String) : Statement → Prop
  | .before _ index => ∀ path, setting.field index "before" = .ok path → path ∈ paths
  | _ => True

theorem alike_bodyFailed (h : frame.counts.AgreeOn paths counts) (error : String)
    (failure : Failure) :
    (setting.bodyFailed error frame failure).Alike paths
      (setting.bodyFailed error (frame.recount counts) failure) := by
  have hcatches : setting.catches error (frame.recount counts) failure =
      setting.catches error frame failure := rfl
  unfold bodyFailed
  rw [hcatches]
  split
  · exact .ended h _
  · exact .ended h _
  · split
    · exact .next h
    · exact .ended h _

/-- A statement does the same from counts that are the same for its middlewares. -/
theorem alike_runStatement (h : frame.counts.AgreeOn paths counts) {statement : Statement}
    (hwithin : setting.Within paths statement) :
    (setting.runStatement frame statement).Alike paths
      (setting.runStatement (frame.recount counts) statement) := by
  cases statement with
  | before position index =>
    simp only [runStatement, runBefore]
    cases hfield : setting.field index "before" with
    | error failure => exact .ended h _
    | ok path =>
      have hcount : counts path = frame.counts path := (h path (hwithin path hfield)).symm
      simp only [Counts.add_self, Frame.recount, hcount]
      split
      · exact .next (h.add path)
      · exact .ended (h.add path) _
  | gather count =>
    have hcontext : (frame.recount counts).context = frame.context := rfl
    simp only [runStatement, hcontext]
    split
    · exact .next h
    · exact .ended h _
  | call method error =>
    have hcallee : setting.callee (frame.recount counts) method = setting.callee frame method := rfl
    simp only [runStatement, runBody, hcallee]
    split
    · exact setting.alike_bodyFailed h error _
    · rename_i held _
      have hrecord : (frame.record (.body held frame.gathered frame.request)).counts.AgreeOn paths
        counts := h
      simp only [Frame.recount]
      split
      · exact .next h
      · exact setting.alike_bodyFailed hrecord error _
  | after position index =>
    have hcontext : (frame.recount counts).context position = frame.context position := rfl
    have houtcome : (frame.recount counts).outcome = frame.outcome := rfl
    simp only [runStatement, runAfter, hcontext, houtcome]
    split
    · exact .ended h _
    · exact .ended h _
    · exact .ended h _
    · rename_i path context outcome _ _ _
      have hrecord : (frame.record (.after path context outcome)).counts.AgreeOn paths counts := h
      simp only [Frame.recount]
      split
      · exact .next hrecord
      · exact .ended hrecord _
  | answer =>
    have houtcome : (frame.recount counts).outcome = frame.outcome := rfl
    simp only [runStatement, houtcome]
    split
    · exact .ended h _
    · exact .ended h _
    · exact .ended h _

/-- What statements log and answer depends on the counts of their middlewares alone. -/
theorem run_of_agreeOn (h : frame.counts.AgreeOn paths counts) {statements : List Statement}
    (hwithin : ∀ statement ∈ statements, setting.Within paths statement) :
    (setting.run (frame.recount counts) statements).log = (setting.run frame statements).log ∧
      (setting.run (frame.recount counts) statements).answer =
        (setting.run frame statements).answer := by
  induction statements generalizing frame counts with
  | nil => exact ⟨rfl, rfl⟩
  | cons statement statements ih =>
    obtain ⟨hfirst, hrest⟩ := List.forall_mem_cons.mp hwithin
    have halike := setting.alike_runStatement h hfirst
    rw [run, run]
    generalize setting.runStatement frame statement = progress,
      setting.runStatement (frame.recount counts) statement = other at halike
    cases halike with
    | next h => exact ih h hrest
    | ended h answer => exact ⟨rfl, rfl⟩

/-- A statement leaves the counts of all middlewares but its own. -/
theorem counts_runStatement {statement : Statement} (hwithin : setting.Within paths statement)
    {path : String} (hpath : path ∉ paths) :
    (setting.runStatement frame statement).frame.counts path = frame.counts path := by
  rcases setting.runStatement_cases frame statement with
    ⟨_, _, found, rfl, hfield, _, hcounts⟩ | ⟨_, _, _, hcounts⟩
  · rw [hcounts]
    exact frame.counts.add_of_ne fun heq => hpath (heq ▸ hwithin found hfield)
  · rw [hcounts]

/-- Statements leave the counts of all middlewares but their own. -/
theorem counts_run {statements : List Statement}
    (hwithin : ∀ statement ∈ statements, setting.Within paths statement) {path : String}
    (hpath : path ∉ paths) : (setting.run frame statements).counts path = frame.counts path := by
  induction statements generalizing frame with
  | nil => rfl
  | cons statement statements ih =>
    obtain ⟨hfirst, hrest⟩ := List.forall_mem_cons.mp hwithin
    have hstep : (setting.runStatement frame statement).frame.counts path = frame.counts path :=
      setting.counts_runStatement hfirst hpath
    rw [run]
    cases hprogress : setting.runStatement frame statement with
    | next after =>
      rw [hprogress] at hstep
      exact (ih hrest).trans hstep
    | ended after answer =>
      rw [hprogress] at hstep
      exact hstep

/-- Only hooks before the call are counted. -/
theorem within_inner (rpc : Rpc) (paths : List String) :
    ∀ statement ∈ rpc.inner, setting.Within paths statement := by
  intro statement hmem
  cases statement with
  | before position index =>
    have hafter := exists_of_mem_hooks
      (show .before position index ∈ hooks .after 0 rpc.indices by simpa [Rpc.inner] using hmem)
    obtain ⟨_, _, _, heq⟩ := hafter
    simp at heq
  | gather | call | after | answer => trivial

/-- After the hooks before the call none of them runs again. -/
theorem exists_run_inner (frame : Frame) (rpc : Rpc) :
    ∃ events, entryPaths events = [] ∧
      (setting.run frame rpc.inner).log = frame.log ++ events := by
  obtain ⟨events, hlog, htallies⟩ := setting.exists_tallies_run frame rpc.inner
  -- Each hook before a call would add one to a count.
  have hcounts : (setting.run frame rpc.inner).counts = frame.counts := by
    ext path
    exact setting.counts_run (setting.within_inner rpc []) List.not_mem_nil
  rw [hcounts] at htallies
  exact ⟨events, htallies.entryPaths_eq_nil, hlog⟩

/-- The hooks of a method are those of the middlewares that its fields hold. -/
theorem within_statements {rpc : Rpc}
    (h : List.Forall₂ (fun index path => setting.field index "before" = .ok path)
      rpc.indices paths) :
    ∀ statement ∈ rpc.statements, setting.Within paths statement := by
  intro statement hmem
  rw [rpc.statements_eq] at hmem
  rcases List.mem_append.mp hmem with hmem | hmem
  · obtain ⟨position, index, hindex, rfl⟩ := exists_of_mem_hooks hmem
    intro path hfield
    obtain ⟨found, hfound, hok⟩ := exists_mem_of_forall₂ h hindex
    rw [hok] at hfield
    exact Except.ok.inj hfield ▸ hfound
  · exact setting.within_inner rpc paths statement hmem

/-- A method runs the hooks of all its middlewares, or one of them rejects the call and is the last
event of the log. -/
theorem entered_of_runMethod {rpc : Rpc} (declaration : Declaration)
    (h : List.Forall₂ (fun index path => setting.field index "before" = .ok path)
      rpc.indices declaration.middlewares) (request : Json) (counts : Counts) :
    let log := (setting.runMethod rpc.wrapperMethod request counts).log
    entryPaths log = declaration.middlewares ∨
      RejectedLog setting.behavior declaration request counts log := by
  rw [setting.runMethod_eq_enter h]
  rcases Surroundings.enter_cases setting.behavior setting.rejection request
      declaration.middlewares [] [] counts with
    ⟨contexts, _, henter⟩ | ⟨entered, path, rest, contexts, failure, hpaths, hgave, hfail, henter⟩
  · left
    rw [henter]
    obtain ⟨events, hnone, hlog⟩ := setting.exists_run_inner (Setting.entered request contexts
      (beforeEvents request counts declaration.middlewares)
      (counts.addAll declaration.middlewares)) rpc
    exact (congrArg entryPaths hlog).trans (by simp [Setting.entered, entryPaths_append, hnone])
  · right
    rw [henter]
    refine ⟨entered, path, rest, contexts, failure, hpaths, hgave, hfail, ?_⟩
    simp [beforeEvents_append, beforeEvents]

end Setting

/-! ## Calls -/

/-- The middlewares whose hooks a call of a name runs: those that the method of the name lists. -/
def ImplDef.pathsOf (impl : ImplDef String) (name : String) : List String :=
  ((impl.method? name).map MethodDef.middlewarePaths).getD []

section

variable {impl : ImplDef String} {service : Service} (h : impl.service = .ok service)
  (names : List (String × Referent)) (errors : String → ErrorClass)
include h

/-- A call runs no method, or a method whose fields hold the middlewares that the block lists. -/
theorem callee_cases (name : String) :
    service.method? name = none ∨
      ∃ method, ∃ rpc : Rpc, impl.method? name = some method ∧
        service.method? name = some rpc.wrapperMethod ∧
        ∀ behavior, List.Forall₂
          (fun index path =>
            (service.setting names errors behavior).field index "before" = .ok path)
          rpc.indices method.middlewarePaths := by
  rcases method?_cases h name with ⟨_, hnone⟩ | ⟨method, rpc, hm, hs, _, hd, hstep⟩
  · exact Or.inl hnone
  · by_cases hhidden : (service.attributes.lookup name).isSome
    · exact Or.inl (by rw [hs, if_pos hhidden])
    · refine Or.inr ⟨method, rpc, hm, by rw [hs, if_neg hhidden], fun behavior => ?_⟩
      rw [← hd.middlewares]
      exact service.fields_setting names errors behavior hstep "before"

/-- A call runs the hooks of all its middlewares, or one of them rejects it and is the last event of
the log. -/
theorem entered_of_runCall (counts : Counts) {call : Call} {method : MethodDef String}
    (hmethod : impl.method? call.method = some method)
    (hcallee : service.method? call.method ≠ none) :
    entryPaths (service.runCall names errors counts call).log = method.middlewarePaths ∨
      RejectedLog call.behavior method.declaration call.request counts
        (service.runCall names errors counts call).log := by
  rcases callee_cases h names errors call.method with hnone | ⟨method', rpc, hm, hs, hfields⟩
  · exact absurd hnone hcallee
  · obtain rfl : method' = method := Option.some.inj (hm.symm.trans hmethod)
    rw [Service.runCall, hs]
    exact (service.setting names errors call.behavior).entered_of_runMethod method'.declaration
      (hfields call.behavior) call.request counts

/-- A call leaves the counts of all middlewares but its own. -/
theorem counts_runCall (counts : Counts) {call : Call} {path : String}
    (hpath : path ∉ impl.pathsOf call.method) :
    (service.runCall names errors counts call).counts path = counts path := by
  rcases callee_cases h names errors call.method with hnone | ⟨method, rpc, hm, hs, hfields⟩
  · rw [Service.runCall, hnone]
  · rw [Service.runCall, hs]
    have hpaths : path ∉ method.middlewarePaths := by simpa [ImplDef.pathsOf, hm] using hpath
    exact Setting.counts_run _ (Setting.within_statements _ (hfields call.behavior)) hpaths

/-- What a call logs and answers depends on the counts of its middlewares alone. -/
theorem runCall_of_agreeOn {counts others : Counts} {call : Call}
    (hcounts : counts.AgreeOn (impl.pathsOf call.method) others) :
    (service.runCall names errors others call).log =
        (service.runCall names errors counts call).log ∧
      (service.runCall names errors others call).answer =
        (service.runCall names errors counts call).answer := by
  rcases callee_cases h names errors call.method with hnone | ⟨method, rpc, hm, hs, hfields⟩
  · simp only [Service.runCall, hnone, and_self]
  · simp only [Service.runCall, hs]
    have hpaths : impl.pathsOf call.method = method.middlewarePaths := by
      rw [ImplDef.pathsOf, hm]
      rfl
    rw [hpaths] at hcounts
    have hstart : (Frame.start call.request counts).counts.AgreeOn method.middlewarePaths others :=
      hcounts
    exact Setting.run_of_agreeOn _ hstart (Setting.within_statements _ (hfields call.behavior))

/-- Two calls that share no middleware can be made in either order: each logs and answers the same,
and the same counts are left. -/
theorem runCall_exchange (counts : Counts) {first second : Call}
    (hdisjoint : (impl.pathsOf first.method).Disjoint (impl.pathsOf second.method)) :
    let early := service.runCall names errors counts first
    let late := service.runCall names errors early.counts second
    let early' := service.runCall names errors counts second
    let late' := service.runCall names errors early'.counts first
    late'.log = early.log ∧ late'.answer = early.answer ∧ early'.log = late.log ∧
      early'.answer = late.answer ∧ late'.counts = late.counts := by
  intro early late early' late'
  -- In either order the call made first leaves the counts of the other one's middlewares.
  have hfirst : counts.AgreeOn (impl.pathsOf first.method) early'.counts := fun path hpath =>
    (counts_runCall h names errors counts fun hother => hdisjoint hpath hother).symm
  have hsecond : early.counts.AgreeOn (impl.pathsOf second.method) counts := fun path hpath =>
    counts_runCall h names errors counts fun hother => hdisjoint hother hpath
  obtain ⟨hfirstLog, hfirstAnswer⟩ : late'.log = early.log ∧ late'.answer = early.answer :=
    runCall_of_agreeOn h names errors hfirst
  obtain ⟨hsecondLog, hsecondAnswer⟩ : early'.log = late.log ∧ early'.answer = late.answer :=
    runCall_of_agreeOn h names errors hsecond
  refine ⟨hfirstLog, hfirstAnswer, hsecondLog, hsecondAnswer, ?_⟩
  ext path
  calc late'.counts path
      = early'.counts path + (entryPaths late'.log).count path :=
        service.runCall_counts_apply names errors early'.counts first path
    _ = counts path + (entryPaths early'.log).count path + (entryPaths late'.log).count path := by
        rw [service.runCall_counts_apply names errors counts second path]
    _ = counts path + (entryPaths early.log).count path + (entryPaths late.log).count path := by
        rw [hfirstLog, hsecondLog]
        omega
    _ = early.counts path + (entryPaths late.log).count path := by
        rw [service.runCall_counts_apply names errors counts first path]
    _ = late.counts path :=
        (service.runCall_counts_apply names errors early.counts second path).symm

end

@[simp] theorem Service.length_runCalls (service : Service) (names : List (String × Referent))
    (errors : String → ErrorClass) (counts : Counts) (calls : List Call) :
    (service.runCalls names errors counts calls).length = calls.length := by
  induction calls generalizing counts with
  | nil => rfl
  | cons call calls ih => simp [Service.runCalls, ih]

/-- A run goes on from the counts that its calls so far leave. -/
theorem Service.exists_runCalls_append (service : Service) (names : List (String × Referent))
    (errors : String → ErrorClass) (counts : Counts) (earlier : List Call) :
    ∃ after, ∀ calls, service.runCalls names errors counts (earlier ++ calls) =
      service.runCalls names errors counts earlier ++
        service.runCalls names errors after calls := by
  induction earlier generalizing counts with
  | nil => exact ⟨counts, fun calls => rfl⟩
  | cons call earlier ih =>
    obtain ⟨after, hafter⟩ := ih (service.runCall names errors counts call).counts
    exact ⟨after, fun calls => by simp only [List.cons_append, Service.runCalls, hafter]⟩

/-- How the counts of a wrapper's middlewares go along with its calls. -/
structure Bookkeeping (impl : ImplDef String) (service : Service)
    (names : List (String × Referent)) (errors : String → ErrorClass) : Prop where
  /-- At every point of a run the count of each middleware is the number of its hooks that were
  logged before calls since the start. -/
  counts_eq : ∀ calls, ∀ point ∈ service.points names errors ⟨[], .zero⟩ calls, ∀ path,
    point.counts path = (entryPaths point.log).count path
  /-- A run ends at the point at which all that its calls log is logged. -/
  last : ∀ calls, ∃ counts, (service.points names errors ⟨[], .zero⟩ calls).getLast? =
    some ⟨(service.runCalls names errors .zero calls).flatMap (·.log), counts⟩
  /-- Each hook before a call is numbered with the count that it leaves. -/
  number_eq : ∀ calls earlier path number request later,
    (service.runCalls names errors .zero calls).flatMap (·.log) =
      earlier ++ .before path number request :: later →
    number = (entryPaths earlier).count path + 1
  /-- No context that a hook returns when its script leaves it out is repeated in a run. -/
  contexts_nodup : ∀ scripts, (service.unscripted names errors .zero scripts).Nodup
  /-- The wrapper has a method of every name of the block but those that definitions reserve. -/
  callee_iff : ∀ name, isReserved name = false →
    (service.method? name = none ↔ impl.method? name = none)
  /-- A call adds to the counts the hooks that it logs. They are those of all middlewares that its
  method lists, in their order, or those up to one that rejects the call, which is the last event of
  the log. -/
  entered : ∀ counts call method, impl.method? call.method = some method →
    service.method? call.method ≠ none →
    (service.runCall names errors counts call).counts =
      counts.addAll (entryPaths (service.runCall names errors counts call).log) ∧
    (entryPaths (service.runCall names errors counts call).log = method.middlewarePaths ∨
      RejectedLog call.behavior method.declaration call.request counts
        (service.runCall names errors counts call).log)
  /-- A call of no method logs and counts nothing. -/
  idle : ∀ counts call, service.method? call.method = none →
    (service.runCall names errors counts call).log = [] ∧
      (service.runCall names errors counts call).counts = counts
  /-- A call leaves the counts of all middlewares but those that its method lists. -/
  untouched : ∀ counts call, ∀ path ∉ impl.pathsOf call.method,
    (service.runCall names errors counts call).counts path = counts path
  /-- Two calls next to each other whose methods share no middleware can be exchanged in a run: each
  keeps its log and its answer, and so does every other call. -/
  exchange : ∀ counts earlier first second later,
    (impl.pathsOf first.method).Disjoint (impl.pathsOf second.method) →
    ∃ (before after : List Trace) (one other one' other' : Trace),
      before.length = earlier.length ∧
      service.runCalls names errors counts (earlier ++ first :: second :: later) =
        before ++ one :: other :: after ∧
      service.runCalls names errors counts (earlier ++ second :: first :: later) =
        before ++ other' :: one' :: after ∧
      one'.log = one.log ∧ one'.answer = one.answer ∧
      other'.log = other.log ∧ other'.answer = other.answer

/-- The counts of every accepted block's wrapper go along with its calls. -/
theorem bookkeeping_of_service {impl : ImplDef String} {service : Service}
    (h : impl.service = .ok service) (names : List (String × Referent))
    (errors : String → ErrorClass) : Bookkeeping impl service names errors where
  counts_eq calls point hpoint path := by
    obtain ⟨events, hlog, htallies⟩ := Service.tallies_of_mem_points hpoint
    obtain rfl : point.log = events := hlog
    rw [htallies.after_eq, Counts.addAll_apply]
    exact Nat.zero_add _
  last calls := service.exists_getLast?_points names errors ⟨[], .zero⟩ calls
  number_eq calls earlier path number request later hlog := by
    obtain ⟨after, htallies⟩ := service.exists_tallies_runCalls names errors .zero calls
    rw [hlog] at htallies
    rw [htallies.number_eq, Counts.zero_apply, Nat.zero_add]
  contexts_nodup := service.nodup_unscripted names errors .zero
  callee_iff name hreserved := by
    rcases method?_cases h name with ⟨hm, hs⟩ | ⟨method, rpc, hm, hs, _, _, _⟩
    · simp [hm, hs]
    · simp [hm, hs, service.lookup_attributes_eq_none hreserved]
  entered counts call method hmethod hcallee :=
    ⟨(service.tallies_runCall names errors counts call).after_eq,
      entered_of_runCall h names errors counts hmethod hcallee⟩
  idle counts call hnone := by
    rw [Service.runCall, hnone]
    exact ⟨rfl, rfl⟩
  untouched counts call path hpath := counts_runCall h names errors counts hpath
  exchange counts earlier first second later hdisjoint := by
    obtain ⟨between, happend⟩ := service.exists_runCalls_append names errors counts earlier
    obtain ⟨hfirstLog, hfirstAnswer, hsecondLog, hsecondAnswer, hcounts⟩ :=
      runCall_exchange h names errors between hdisjoint
    refine ⟨service.runCalls names errors counts earlier, _, _, _, _, _,
      service.length_runCalls names errors counts earlier, happend _, ?_, hfirstLog, hfirstAnswer,
      hsecondLog, hsecondAnswer⟩
    rw [happend, Service.runCalls, Service.runCalls, hcounts]

/-- A block whose methods share no middleware, one of which lists its own twice. -/
def parted : ImplDef String :=
  { greeter with
    methods := [
      { greeter.methods[0] with
        annotations := [⟨"middleware", some [⟨.path, "Log", .none⟩, ⟨.path, "Log", .none⟩],
          .none⟩] },
      greeter.methods[1]] }

/-- The service of the block. -/
def partedService : Service :=
  { greeterService with
    methods := [
      { greeterService.methods[0] with
        middlewares := [⟨"Log", .none⟩, ⟨"Log", .none⟩]
        indices := [1, 1] },
      greeterService.methods[1]] }

theorem service_parted : parted.service = .ok partedService := by
  have hrpcs : parted.methods.mapM MethodDef.rpc =
      .ok (partedService.methods.map ({ · with indices := [] })) := by decide +kernel
  refine ImplDef.service_eq_ok_iff.mpr ⟨rfl, rfl, by decide +kernel, _, hrpcs, ?_⟩
  exact Registry.build_eq_ok_iff.mpr ⟨sort_greeter.symm, by decide +kernel⟩

/-- A call that its script leaves to hooks and body. -/
def plainly (method : String) : Script := ⟨method, .null, [], none, []⟩

theorem bookkeeping_parted :
    Bookkeeping parted partedService greeterNames (fun _ => .general) ∧
      (parted.pathsOf "say_hello").Disjoint (parted.pathsOf "ping") ∧
      partedService.unscripted greeterNames (fun _ => .general) .zero
          [plainly "say_hello", ⟨"ping", .null, [("Auth", .fail (.plain .value []))], none, []⟩,
            plainly "say_hello", plainly "ping"] =
        [.str "Log#1", .str "Log#2", .str "Log#3", .str "Log#4", .str "Auth#2"] := by
  refine ⟨bookkeeping_of_service service_parted _ _, ?_, by decide +kernel⟩
  rw [List.disjoint_iff_ne]
  decide +kernel

end Interpose
