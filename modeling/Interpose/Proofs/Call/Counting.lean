import Interpose.Proofs.Call.Course
import Interpose.Proofs.Call.Refinement

/-!
# Counting hooks

The counts of a wrapper's middlewares go along with its log: at every point of a run the count of a
middleware is the number of its hooks that ran before calls since the start, and each such hook is
numbered with the count. `Tallies` says this of any part of a log; it holds of what a statement
logs, and so of what a call and a run of calls log. Contexts that name the hook that returned them
are therefore never repeated.
-/

namespace Interpose

/-- The path and the number of a hook that runs before a call. -/
def Event.label? : Event → Option (String × Nat)
  | .before path count _ => some (path, count)
  | _ => none

/-- The hooks before calls in a log, each by its path and its number. -/
def entries (log : List Event) : List (String × Nat) := log.filterMap Event.label?

/-- The paths of the hooks before calls in a log, in the order in which they ran. -/
def entryPaths (log : List Event) : List String := (entries log).map Prod.fst

theorem entries_append (log events : List Event) :
    entries (log ++ events) = entries log ++ entries events :=
  List.filterMap_append

theorem entryPaths_append (log events : List Event) :
    entryPaths (log ++ events) = entryPaths log ++ entryPaths events := by
  rw [entryPaths, entries_append, List.map_append]
  rfl

/-- Events that lead from some counts to others: a hook before a call adds one to the count of its
middleware and is numbered with it, and nothing else is counted. -/
inductive Tallies : Counts → List Event → Counts → Prop
  /-- Nothing runs. -/
  | nil (counts : Counts) : Tallies counts [] counts
  /-- A hook runs before a call. -/
  | entry {counts after : Counts} {path : String} {request : Json} {events : List Event}
      (h : Tallies (counts.add path) events after) :
      Tallies counts (.before path (counts path + 1) request :: events) after
  /-- Anything else runs. -/
  | other {counts after : Counts} {event : Event} {events : List Event}
      (hevent : event.label? = none) (h : Tallies counts events after) :
      Tallies counts (event :: events) after

namespace Tallies

variable {counts between after : Counts} {events others : List Event}

/-- Tallies of a log go on with those of another one. -/
theorem append (h : Tallies counts events between) (ho : Tallies between others after) :
    Tallies counts (events ++ others) after := by
  induction h with
  | nil => exact ho
  | entry _ ih => exact .entry (ih ho)
  | other hevent _ ih => exact .other hevent (ih ho)

/-- Events can be cut anywhere. -/
theorem exists_of_append (h : Tallies counts (events ++ others) after) :
    ∃ between, Tallies counts events between ∧ Tallies between others after := by
  induction events generalizing counts with
  | nil => exact ⟨counts, .nil counts, h⟩
  | cons event events ih =>
    cases h with
    | entry h =>
      obtain ⟨between, hleft, hright⟩ := ih h
      exact ⟨between, .entry hleft, hright⟩
    | other hevent h =>
      obtain ⟨between, hleft, hright⟩ := ih h
      exact ⟨between, .other hevent hleft, hright⟩

/-- The counts are those of the hooks that ran. -/
theorem after_eq (h : Tallies counts events after) : after = counts.addAll (entryPaths events) := by
  induction h with
  | nil => rfl
  | entry _ ih => exact ih
  | @other counts after event events hevent _ ih =>
    rw [ih, entryPaths, entryPaths, entries, entries, List.filterMap_cons_none hevent]

/-- No hook before a call runs when the counts stay. -/
theorem entryPaths_eq_nil (h : Tallies counts events counts) : entryPaths events = [] := by
  rw [List.eq_nil_iff_forall_not_mem]
  intro path hmem
  have hcount := congrFun h.after_eq path
  rw [counts.addAll_apply] at hcount
  have hpos := List.count_pos_iff.mpr hmem
  omega

/-- A hook is numbered with the count that it leaves. -/
theorem number_eq {path : String} {number : Nat} {request : Json}
    (h : Tallies counts (events ++ .before path number request :: others) after) :
    number = counts path + (entryPaths events).count path + 1 := by
  obtain ⟨between, hleft, hright⟩ := h.exists_of_append
  cases hright with
  | entry => rw [hleft.after_eq, counts.addAll_apply]
  | other hevent => simp [Event.label?] at hevent

/-- The numbers of hooks go on from the counts. -/
theorem lt_of_mem_entries (h : Tallies counts events after) {path : String} {number : Nat}
    (hmem : (path, number) ∈ entries events) : counts path < number := by
  obtain ⟨event, hevent, hlabel⟩ := List.mem_filterMap.mp hmem
  obtain ⟨earlier, later, rfl⟩ := List.append_of_mem hevent
  cases event with
  | before other count request =>
    obtain ⟨rfl, rfl⟩ := Prod.mk.inj (Option.some.inj hlabel)
    have hnumber := h.number_eq
    omega
  | body => simp [Event.label?] at hlabel
  | after => simp [Event.label?] at hlabel

/-- No two hooks of one middleware have the same number. -/
theorem nodup_entries (h : Tallies counts events after) : (entries events).Nodup := by
  induction h with
  | nil => exact List.nodup_nil
  | @entry counts after path request events h ih =>
    refine List.nodup_cons.mpr ⟨fun hmem => ?_, ih⟩
    have hlt := h.lt_of_mem_entries hmem
    rw [counts.add_self] at hlt
    omega
  | other hevent _ ih => rwa [entries, List.filterMap_cons_none hevent]

end Tallies

/-- Events among which no hook runs before a call are not counted. -/
theorem tallies_of_entries_eq_nil {counts : Counts} {events : List Event}
    (h : entries events = []) : Tallies counts events counts := by
  induction events with
  | nil => exact .nil counts
  | cons event events ih =>
    cases hevent : event.label? with
    | none =>
      rw [entries, List.filterMap_cons_none hevent] at h
      exact .other hevent (ih h)
    | some label => simp [entries, List.filterMap_cons_some hevent] at h

@[simp] theorem entryPaths_beforeEvents (request : Json) (counts : Counts) (paths : List String) :
    entryPaths (beforeEvents request counts paths) = paths := by
  induction paths generalizing counts with
  | nil => rfl
  | cons path paths ih => exact congrArg (path :: ·) (ih (counts.add path))

/-! ## Statements -/

/-- A frame that differs from another one in the counts. -/
def Frame.recount (frame : Frame) (counts : Counts) : Frame := { frame with counts }

/-- A frame that a call reaches from another one, with what was logged and counted in between. -/
def Frame.Reaches (frame after : Frame) : Prop :=
  ∃ events, after.log = frame.log ++ events ∧ Tallies frame.counts events after.counts

namespace Frame.Reaches

variable {frame between after : Frame}

/-- A frame reaches itself. -/
theorem refl (frame : Frame) : frame.Reaches frame := ⟨[], by simp, .nil frame.counts⟩

/-- A frame reaches what a frame that it reaches does. -/
theorem trans (h : frame.Reaches between) (ho : between.Reaches after) : frame.Reaches after := by
  obtain ⟨events, hlog, htallies⟩ := h
  obtain ⟨others, holog, hotallies⟩ := ho
  exact ⟨events ++ others, by rw [holog, hlog, List.append_assoc], htallies.append hotallies⟩

end Frame.Reaches

/-- A frame that a call reaches from another one without a hook before the call. -/
def Frame.Quiet (frame after : Frame) : Prop :=
  ∃ events, after.log = frame.log ++ events ∧ entries events = [] ∧ after.counts = frame.counts

namespace Frame.Quiet

variable {frame after : Frame}

/-- Nothing is logged. -/
theorem of_eq (hlog : after.log = frame.log) (hcounts : after.counts = frame.counts) :
    frame.Quiet after := ⟨[], by rw [hlog, List.append_nil], rfl, hcounts⟩

/-- An event that is not counted is logged. -/
theorem record {event : Event} (hevent : event.label? = none)
    (h : (frame.record event).Quiet after) : frame.Quiet after := by
  obtain ⟨events, hlog, hentries, hcounts⟩ := h
  refine ⟨event :: events, ?_, ?_, hcounts⟩
  · rw [hlog, Frame.record, List.append_assoc]
    rfl
  · rwa [entries, List.filterMap_cons_none hevent]

/-- What is reached without a hook before the call is reached. -/
theorem reaches (h : frame.Quiet after) : frame.Reaches after := by
  obtain ⟨events, hlog, hentries, hcounts⟩ := h
  refine ⟨events, hlog, ?_⟩
  rw [hcounts]
  exact tallies_of_entries_eq_nil hentries

end Frame.Quiet

/-- The variables of a call after a statement. -/
def Progress.frame : Progress → Frame
  | .next frame | .ended frame _ => frame

namespace Setting

variable (setting : Setting)

/-- The failure of a body is settled without a hook. -/
theorem quiet_bodyFailed (error : String) (frame : Frame) (failure : Failure) :
    frame.Quiet (setting.bodyFailed error frame failure).frame := by
  unfold bodyFailed
  split
  · exact .of_eq rfl rfl
  · exact .of_eq rfl rfl
  · split
    · exact .of_eq rfl rfl
    · exact .of_eq rfl rfl

/-- What a statement logs and counts: a hook before the call that it runs, or nothing that is
counted. -/
theorem runStatement_cases (frame : Frame) (statement : Statement) :
    (∃ position index path, statement = .before position index ∧
      setting.field index "before" = .ok path ∧
      (setting.runStatement frame statement).frame.log =
        frame.log ++ [.before path (frame.counts path + 1) frame.request] ∧
      (setting.runStatement frame statement).frame.counts = frame.counts.add path) ∨
    frame.Quiet (setting.runStatement frame statement).frame := by
  cases statement with
  | before position index =>
    simp only [runStatement, runBefore]
    cases hfield : setting.field index "before" with
    | error failure => exact Or.inr (.of_eq rfl rfl)
    | ok path =>
      refine Or.inl ⟨position, index, path, rfl, hfield, ?_⟩
      simp only [Counts.add_self]
      split
      · exact ⟨rfl, rfl⟩
      · exact ⟨rfl, rfl⟩
  | gather count =>
    right
    simp only [runStatement]
    split
    · exact .of_eq rfl rfl
    · exact .of_eq rfl rfl
  | call method error =>
    right
    simp only [runStatement, runBody]
    split
    · exact setting.quiet_bodyFailed error frame _
    · rename_i held hbody
      have hevent : (Event.body held frame.gathered frame.request).label? = none := rfl
      split
      · exact .record hevent (.of_eq rfl rfl)
      · exact .record hevent (setting.quiet_bodyFailed error _ _)
  | after position index =>
    right
    simp only [runStatement, runAfter]
    split
    · exact .of_eq rfl rfl
    · exact .of_eq rfl rfl
    · exact .of_eq rfl rfl
    · rename_i path context outcome _ _ _
      have hevent : (Event.after path context outcome).label? = none := rfl
      split
      · exact .record hevent (.of_eq rfl rfl)
      · exact .record hevent (.of_eq rfl rfl)
  | answer =>
    right
    simp only [runStatement]
    split
    · exact .of_eq rfl rfl
    · exact .of_eq rfl rfl
    · exact .of_eq rfl rfl

/-- Every statement counts what it logs. -/
theorem reaches_runStatement (frame : Frame) (statement : Statement) :
    frame.Reaches (setting.runStatement frame statement).frame := by
  rcases setting.runStatement_cases frame statement with ⟨_, _, path, _, _, hlog, hcounts⟩ | hquiet
  · refine ⟨_, hlog, ?_⟩
    rw [hcounts]
    exact .entry (.nil _)
  · exact hquiet.reaches

/-- The frames that statements pass through, from the one before the first of them to the one in
which the call ends. -/
def frames (setting : Setting) (frame : Frame) : List Statement → List Frame
  | [] => [frame]
  | statement :: statements =>
    frame :: match setting.runStatement frame statement with
      | .next after => setting.frames after statements
      | .ended after _ => [after]

/-- What is logged up to any frame of a call is counted. -/
theorem reaches_of_mem_frames {frame after : Frame} {statements : List Statement}
    (h : after ∈ setting.frames frame statements) : frame.Reaches after := by
  induction statements generalizing frame with
  | nil =>
    obtain rfl := List.mem_singleton.mp h
    exact .refl after
  | cons statement statements ih =>
    have hstep := setting.reaches_runStatement frame statement
    rcases List.mem_cons.mp h with rfl | h
    · exact .refl after
    · cases hprogress : setting.runStatement frame statement with
      | next between =>
        rw [hprogress] at h hstep
        exact hstep.trans (ih h)
      | ended last answer =>
        rw [hprogress] at h hstep
        obtain rfl := List.mem_singleton.mp h
        exact hstep

/-- A call leaves the log and the counts of its last frame. -/
theorem exists_getLast?_frames (frame : Frame) (statements : List Statement) :
    ∃ last, (setting.frames frame statements).getLast? = some last ∧
      (setting.run frame statements).log = last.log ∧
      (setting.run frame statements).counts = last.counts := by
  induction statements generalizing frame with
  | nil => exact ⟨frame, rfl, rfl, rfl⟩
  | cons statement statements ih =>
    rw [frames, run, List.getLast?_cons]
    cases setting.runStatement frame statement with
    | next after =>
      obtain ⟨last, hlast, hlog, hcounts⟩ := ih after
      exact ⟨last, by simp [hlast], hlog, hcounts⟩
    | ended after answer => exact ⟨after, rfl, rfl, rfl⟩

/-- What statements log is counted. -/
theorem exists_tallies_run (frame : Frame) (statements : List Statement) :
    ∃ events, (setting.run frame statements).log = frame.log ++ events ∧
      Tallies frame.counts events (setting.run frame statements).counts := by
  obtain ⟨last, hlast, hlog, hcounts⟩ := setting.exists_getLast?_frames frame statements
  rw [hlog, hcounts]
  exact setting.reaches_of_mem_frames (List.mem_of_getLast? hlast)

end Setting

/-! ## Runs -/

/-- A point of a run: what was logged since its start, and the counts. -/
structure Point where
  /-- What ran since the start. -/
  log : List Event
  /-- The counts. -/
  counts : Counts

namespace Service

variable (service : Service) (names : List (String × Referent)) (errors : String → ErrorClass)

/-- The points that a call passes through from the one at which it is made. -/
def callPoints (point : Point) (call : Call) : List Point :=
  match service.method? call.method with
  | some method =>
    ((service.setting names errors call.behavior).frames (.start call.request point.counts)
      method.statements).map fun frame => ⟨point.log ++ frame.log, frame.counts⟩
  | none => [point]

/-- The points that a run of calls passes through from the one at which it begins. -/
def points (service : Service) (names : List (String × Referent)) (errors : String → ErrorClass) :
    Point → List Call → List Point
  | point, [] => [point]
  | point, call :: calls =>
    let trace := service.runCall names errors point.counts call
    service.callPoints names errors point call ++
      service.points names errors ⟨point.log ++ trace.log, trace.counts⟩ calls

/-- What a call logs is counted, whatever its outcome. -/
theorem tallies_runCall (counts : Counts) (call : Call) :
    Tallies counts (service.runCall names errors counts call).log
      (service.runCall names errors counts call).counts := by
  unfold runCall
  split
  · rename_i method _
    obtain ⟨events, hlog, htallies⟩ :=
      (service.setting names errors call.behavior).exists_tallies_run (.start call.request counts)
        method.statements
    obtain rfl : _ = events := hlog
    exact htallies
  · exact .nil counts

/-- A call adds to the count of a middleware the number of its hooks that it logs. -/
theorem runCall_counts_apply (counts : Counts) (call : Call) (path : String) :
    (service.runCall names errors counts call).counts path =
      counts path + (entryPaths (service.runCall names errors counts call).log).count path := by
  conv_lhs => rw [(service.tallies_runCall names errors counts call).after_eq]
  exact counts.addAll_apply _ path

variable {service names errors}

/-- What is logged up to any point of a call is counted. -/
theorem tallies_of_mem_callPoints {point last : Point} {call : Call}
    (h : last ∈ service.callPoints names errors point call) :
    ∃ events, last.log = point.log ++ events ∧ Tallies point.counts events last.counts := by
  unfold callPoints at h
  split at h
  · obtain ⟨frame, hframe, rfl⟩ := List.mem_map.mp h
    obtain ⟨events, hlog, htallies⟩ := Setting.reaches_of_mem_frames _ hframe
    obtain rfl : frame.log = events := hlog
    exact ⟨frame.log, rfl, htallies⟩
  · obtain rfl := List.mem_singleton.mp h
    exact ⟨[], by simp, .nil _⟩

/-- What is logged up to any point of a run is counted. -/
theorem tallies_of_mem_points {point last : Point} {calls : List Call}
    (h : last ∈ service.points names errors point calls) :
    ∃ events, last.log = point.log ++ events ∧ Tallies point.counts events last.counts := by
  induction calls generalizing point with
  | nil =>
    obtain rfl := List.mem_singleton.mp h
    exact ⟨[], by simp, .nil _⟩
  | cons call calls ih =>
    rcases List.mem_append.mp h with h | h
    · exact tallies_of_mem_callPoints h
    · obtain ⟨events, hlog, htallies⟩ := ih h
      exact ⟨_, by rw [hlog, List.append_assoc],
        (service.tallies_runCall names errors point.counts call).append htallies⟩

variable (service names errors)

/-- A run ends at the point where all that its calls log is logged. -/
theorem exists_getLast?_points (point : Point) (calls : List Call) :
    ∃ counts, (service.points names errors point calls).getLast? =
      some ⟨point.log ++ (service.runCalls names errors point.counts calls).flatMap (·.log),
        counts⟩ := by
  induction calls generalizing point with
  | nil => exact ⟨point.counts, by simp [points, runCalls]⟩
  | cons call calls ih =>
    obtain ⟨counts, hlast⟩ := ih
      ⟨point.log ++ (service.runCall names errors point.counts call).log,
        (service.runCall names errors point.counts call).counts⟩
    refine ⟨counts, ?_⟩
    rw [points, List.getLast?_append, hlast, runCalls, List.flatMap_cons]
    simp

/-- What a run logs is counted. -/
theorem exists_tallies_runCalls (counts : Counts) (calls : List Call) :
    ∃ after,
      Tallies counts ((service.runCalls names errors counts calls).flatMap (·.log)) after := by
  obtain ⟨after, hlast⟩ := service.exists_getLast?_points names errors ⟨[], counts⟩ calls
  obtain ⟨events, hlog, htallies⟩ := tallies_of_mem_points (List.mem_of_getLast? hlast)
  obtain rfl : _ = events := hlog
  exact ⟨after, htallies⟩

end Service

/-! ## Contexts of hooks that scripts leave out -/

/-- The text by which a hook names itself: its path and its number. -/
def entryText (entry : String × Nat) : String := entry.1 ++ "#" ++ toString entry.2

/-- A text is cut in one way at the last place of a character. -/
theorem append_cons_inj_of_last {c : Char} {front back front' back' : List Char}
    (hback : c ∉ back) (hback' : c ∉ back') (h : front ++ c :: back = front' ++ c :: back') :
    front = front' ∧ back = back' := by
  -- Of two cuts the later one would leave the character of the earlier one behind it.
  rcases List.append_eq_append_iff.mp h with ⟨between, rfl, hrest⟩ | ⟨between, rfl, hrest⟩
  · cases between with
    | nil => exact ⟨by simp, (List.cons.inj hrest).2⟩
    | cons first between => exact absurd (by simp [(List.cons.inj hrest).2]) hback
  · cases between with
    | nil => exact ⟨by simp, (List.cons.inj hrest).2.symm⟩
    | cons first between => exact absurd (by simp [(List.cons.inj hrest).2]) hback'

/-- Different hooks name themselves differently, whatever characters their paths hold. -/
theorem entryText_injective : Function.Injective entryText := by
  intro ⟨path, number⟩ ⟨path', number'⟩ h
  have hhash (n : Nat) : '#' ∉ (toString n).toList := fun hmem =>
    absurd (isDigit_of_mem_toString hmem) (by decide)
  have hlists := congrArg String.toList h
  simp only [entryText, String.toList_append, List.append_assoc] at hlists
  obtain ⟨hpath, hnumber⟩ := append_cons_inj_of_last (hhash number) (hhash number') hlists
  rw [String.toList_inj.mp hpath, toString_injective (String.toList_inj.mp hnumber)]

/-- The context that a hook before a call returns when its script leaves it out. -/
def Script.unscripted? (script : Script) (event : Event) : Option Json :=
  match event, script.behavior [] event with
  | .before path _ _, .give context =>
    if (script.before.lookup path).isNone then some context else none
  | _, _ => none

/-- A hook that its script leaves out returns the text by which it names itself. -/
theorem Script.exists_label_of_unscripted {script : Script} {event : Event} {context : Json}
    (h : script.unscripted? event = some context) :
    ∃ entry, event.label? = some entry ∧ context = .str (entryText entry) := by
  cases event with
  | before path count request =>
    refine ⟨(path, count), rfl, ?_⟩
    cases hlookup : script.before.lookup path with
    | none => simpa [unscripted?, behavior, hlookup, entryText] using h.symm
    | some act => cases act <;> simp [unscripted?, behavior, hlookup] at h
  | body => simp [unscripted?] at h
  | after => simp [unscripted?] at h

/-- The contexts that the hooks of a log return when its script leaves them out name some of its
hooks, in their order. -/
theorem Script.unscripted_sublist (script : Script) (log : List Event) :
    (log.filterMap script.unscripted?).Sublist
      ((entries log).map fun entry => .str (entryText entry)) := by
  induction log with
  | nil => exact .slnil
  | cons event log ih =>
    cases hcontext : script.unscripted? event with
    | none =>
      rw [List.filterMap_cons_none hcontext]
      cases hlabel : event.label? with
      | none => rwa [entries, List.filterMap_cons_none hlabel]
      | some entry =>
        rw [entries, List.filterMap_cons_some hlabel]
        exact ih.cons _
    | some context =>
      obtain ⟨entry, hlabel, rfl⟩ := script.exists_label_of_unscripted hcontext
      rw [List.filterMap_cons_some hcontext, entries, List.filterMap_cons_some hlabel]
      exact ih.cons_cons _

namespace Service

variable (service : Service) (names : List (String × Referent)) (errors : String → ErrorClass)

/-- The contexts that the hooks before calls return in a run of scripts when these leave them out,
in the order in which they are returned. -/
def unscripted (counts : Counts) (scripts : List Script) : List Json :=
  (scripts.zip (service.runScripts names errors counts scripts)).flatMap fun (script, trace) =>
    trace.log.filterMap script.unscripted?

/-- The contexts of a run name some of its hooks, in their order. -/
theorem unscripted_sublist (counts : Counts) (scripts : List Script) :
    (service.unscripted names errors counts scripts).Sublist
      ((entries ((service.runScripts names errors counts scripts).flatMap (·.log))).map
        fun entry => .str (entryText entry)) := by
  induction scripts generalizing counts with
  | nil => exact .slnil
  | cons script scripts ih =>
    have hrest := ih (service.runCall names errors counts script.call).counts
    simp only [unscripted, runScripts, List.map_cons, runCalls, List.zip_cons_cons,
      List.flatMap_cons, entries_append, List.map_append] at hrest ⊢
    exact (script.unscripted_sublist _).append hrest

/-- No context of a run that names its hook is repeated. -/
theorem nodup_unscripted (counts : Counts) (scripts : List Script) :
    (service.unscripted names errors counts scripts).Nodup := by
  obtain ⟨after, htallies⟩ := service.exists_tallies_runCalls names errors counts
    (scripts.map Script.call)
  have hinjective : Function.Injective fun entry => Json.str (entryText entry) :=
    fun _ _ h => entryText_injective (Json.str.inj h)
  exact (htallies.nodup_entries.map hinjective).sublist
    (service.unscripted_sublist names errors counts scripts)

end Service

end Interpose
