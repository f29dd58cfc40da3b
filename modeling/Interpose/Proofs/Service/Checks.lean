import Interpose.Fault
import Interpose.Proofs.Except

/-!
# Checks in order

A computation that may fail decides a list of checks when it succeeds exactly if all of them hold
and otherwise fails with a fault of the kind of the first that does not. Computations one after the
other decide their checks one list after the other.
-/

namespace Interpose

/-- A condition, and the kind of the faults that report that it does not hold. -/
structure Check where
  /-- The kind of the faults. -/
  kind : FaultKind
  /-- The condition. -/
  holds : Prop

/-- A fault reports the first of some checks that does not hold. -/
def Reports (fault : Fault) (checks : List Check) : Prop :=
  ∃ before check after, checks = before ++ check :: after ∧ (∀ other ∈ before, other.holds) ∧
    ¬ check.holds ∧ fault.kind = check.kind

/-- A computation that succeeds when some checks hold, and otherwise reports the first of them that
does not. -/
structure Decides {α : Type} (checks : List Check) (x : Except Fault α) : Prop where
  /-- When it succeeds, the checks hold. -/
  holds : ∀ a, x = .ok a → ∀ check ∈ checks, check.holds
  /-- When it fails, one of them does not. -/
  reports : ∀ fault, x = .error fault → Reports fault checks

variable {α β : Type} {checks others : List Check} {x : Except Fault α}

/-- Faults report checks that do not hold. -/
theorem Reports.exists_not_holds {fault : Fault} (h : Reports fault checks) :
    ∃ check ∈ checks, ¬ check.holds ∧ fault.kind = check.kind := by
  obtain ⟨before, check, after, rfl, _, hcheck, hkind⟩ := h
  exact ⟨check, List.mem_append_right _ List.mem_cons_self, hcheck, hkind⟩

/-- Checks after others do not come first. -/
theorem Reports.append_right {fault : Fault} (h : Reports fault checks) (others : List Check) :
    Reports fault (checks ++ others) := by
  obtain ⟨before, check, after, rfl, hbefore, hcheck, hkind⟩ := h
  exact ⟨before, check, after ++ others, by simp, hbefore, hcheck, hkind⟩

/-- Checks come first once the ones before them hold. -/
theorem Reports.append_left {fault : Fault} (h : Reports fault checks)
    (hothers : ∀ other ∈ others, other.holds) : Reports fault (others ++ checks) := by
  obtain ⟨before, check, after, rfl, hbefore, hcheck, hkind⟩ := h
  refine ⟨others ++ before, check, after, by simp, ?_, hcheck, hkind⟩
  exact List.forall_mem_append.mpr ⟨hothers, hbefore⟩

namespace Decides

/-- A computation succeeds exactly when its checks hold. -/
theorem exists_ok_iff (h : Decides checks x) :
    (∃ a, x = .ok a) ↔ ∀ check ∈ checks, check.holds := by
  constructor
  · rintro ⟨a, ha⟩
    exact h.holds a ha
  · intro hchecks
    cases hx : x with
    | ok a => exact ⟨a, rfl⟩
    | error fault =>
      obtain ⟨check, hmem, hcheck, _⟩ := (h.reports fault hx).exists_not_holds
      exact absurd (hchecks check hmem) hcheck

/-- A computation that succeeds decides nothing. -/
theorem ok (a : α) : Decides [] (.ok a : Except Fault α) :=
  ⟨fun _ _ _ hmem => absurd hmem List.not_mem_nil, fun _ h => nomatch h⟩

/-- One condition, all of whose faults are of one kind. -/
theorem of_iff {kind : FaultKind} {P : Prop} (hok : (∃ a, x = .ok a) ↔ P)
    (hkind : ∀ fault, x = .error fault → fault.kind = kind) : Decides [⟨kind, P⟩] x := by
  constructor
  · intro a ha check hmem
    obtain rfl := List.mem_singleton.mp hmem
    exact hok.mp ⟨a, ha⟩
  · intro fault hfault
    refine ⟨[], ⟨kind, P⟩, [], rfl, by simp, fun hP => ?_, hkind fault hfault⟩
    obtain ⟨a, ha⟩ := hok.mpr hP
    simp [ha] at hfault

/-- Checks of one kind are one condition. -/
theorem merge {kind : FaultKind} {P : Prop} (h : Decides checks x)
    (hkind : ∀ check ∈ checks, check.kind = kind) (hP : (∀ check ∈ checks, check.holds) ↔ P) :
    Decides [⟨kind, P⟩] x := by
  refine of_iff (h.exists_ok_iff.trans hP) fun fault hfault => ?_
  obtain ⟨check, hmem, _, hcheck⟩ := (h.reports fault hfault).exists_not_holds
  exact hcheck.trans (hkind check hmem)

/-- A computation after another one decides its checks after those of the other one. -/
theorem bind {f : α → Except Fault β} (hx : Decides checks x)
    (hf : ∀ a, x = .ok a → Decides others (f a)) : Decides (checks ++ others) (x >>= f) := by
  cases hcase : x with
  | error fault =>
    refine ⟨fun _ h => (nomatch h), fun other hother => ?_⟩
    obtain rfl : fault = other := Except.error.inj hother
    exact (hx.reports fault hcase).append_right others
  | ok a =>
    have hchecks := hx.holds a hcase
    have ha := hf a hcase
    exact ⟨fun b hb => List.forall_mem_append.mpr ⟨hchecks, ha.holds b hb⟩,
      fun fault hfault => (ha.reports fault hfault).append_left hchecks⟩

/-- A computation after another one that succeeds anyway decides the same. -/
theorem bind_ok {f : α → Except Fault β} (hx : Decides checks x)
    (hf : ∀ a, x = .ok a → Decides [] (f a)) : Decides checks (x >>= f) := by
  have hboth := hx.bind hf
  rwa [List.append_nil] at hboth

/-- Changing the result decides the same. -/
theorem map (f : α → β) (h : Decides checks x) : Decides checks (x.map f) := by
  cases x with
  | error fault =>
    refine ⟨fun _ h => (nomatch h), fun other hother => ?_⟩
    obtain rfl : fault = other := Except.error.inj hother
    exact h.reports fault rfl
  | ok a => exact ⟨fun _ _ => h.holds a rfl, fun _ h => nomatch h⟩

/-- A computation for each member of a list decides the checks of the members in their order. -/
theorem mapM {f : α → Except Fault β} {checksOf : α → List Check} {xs : List α}
    (h : ∀ a ∈ xs, Decides (checksOf a) (f a)) : Decides (xs.flatMap checksOf) (xs.mapM f) := by
  induction xs with
  | nil => exact ok []
  | cons a xs ih =>
    rw [List.mapM_cons, List.flatMap_cons]
    refine bind (h a List.mem_cons_self) fun b _ => ?_
    have hrest := ih fun other hmem => h other (List.mem_cons_of_mem _ hmem)
    exact hrest.map (b :: ·)

/-- One condition on each member of a list, with faults of one kind. -/
theorem forall_mem {f : α → Except Fault β} {kind : FaultKind} {P : α → Prop} {xs : List α}
    (h : ∀ a ∈ xs, Decides [⟨kind, P a⟩] (f a)) :
    Decides [⟨kind, ∀ a ∈ xs, P a⟩] (xs.mapM f) := by
  refine (mapM h).merge (fun check hmem => ?_) ?_
  · obtain ⟨a, _, hcheck⟩ := List.mem_flatMap.mp hmem
    rw [List.mem_singleton.mp hcheck]
  · rw [List.forall_mem_flatMap]
    exact forall₂_congr fun a _ => List.forall_mem_singleton

end Decides

end Interpose
