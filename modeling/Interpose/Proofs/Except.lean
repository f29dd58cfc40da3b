import Mathlib.Data.List.Forall2

/-!
# Results in order

A computation that may fail, made for each member of a list, succeeds exactly when every member
succeeds, and then gives the results in the order of the members. Lists that agree position by
position agree in what is found in them.
-/

namespace Interpose

variable {α β γ ε : Type}

/-- A computation followed by another one succeeds when both do. -/
theorem bind_eq_ok_iff {x : Except ε α} {f : α → Except ε β} {b : β} :
    (x >>= f) = .ok b ↔ ∃ a, x = .ok a ∧ f a = .ok b := by
  cases x with
  | error e => simp [bind, Except.bind]
  | ok a => simp [bind, Except.bind]

/-- A computation whose result is changed succeeds when it does. -/
theorem map_eq_ok_iff {x : Except ε α} {f : α → β} {b : β} :
    x.map f = .ok b ↔ ∃ a, x = .ok a ∧ f a = b := by
  cases x with
  | error e => simp [Except.map]
  | ok a => simp [Except.map]

/-- A computation followed by another one fails as the first of them that fails. -/
theorem bind_eq_error_iff {x : Except ε α} {f : α → Except ε β} {e : ε} :
    (x >>= f) = .error e ↔ x = .error e ∨ ∃ a, x = .ok a ∧ f a = .error e := by
  cases x with
  | error other => simp [bind, Except.bind]
  | ok a => simp [bind, Except.bind]

theorem map_eq_error_iff {x : Except ε α} {f : α → β} {e : ε} :
    x.map f = .error e ↔ x = .error e := by
  cases x with
  | error other => simp [Except.map]
  | ok a => simp [Except.map]

theorem exists_eq_ok_of_isOk {x : Except ε α} (h : x.isOk = true) : ∃ a, x = .ok a := by
  cases x with
  | error e => cases h
  | ok a => exact ⟨a, rfl⟩

/-- A list of computations succeeds when each of them does. -/
theorem mapM_eq_ok_iff {f : α → Except ε β} {xs : List α} {ys : List β} :
    xs.mapM f = .ok ys ↔ List.Forall₂ (fun x y => f x = .ok y) xs ys := by
  induction xs generalizing ys with
  | nil => simp [pure, Except.pure, eq_comm]
  | cons x xs ih =>
    rw [List.mapM_cons, bind_eq_ok_iff, List.forall₂_cons_left_iff]
    constructor
    · rintro ⟨y, hy, h⟩
      obtain ⟨rest, hr, he⟩ := bind_eq_ok_iff.mp h
      exact ⟨y, rest, hy, ih.mp hr, (Except.ok.inj he).symm⟩
    · rintro ⟨y, rest, hy, hr, rfl⟩
      exact ⟨y, hy, bind_eq_ok_iff.mpr ⟨rest, ih.mpr hr, rfl⟩⟩

/-- A list of computations fails as the first of them that fails. -/
theorem mapM_eq_error_iff {f : α → Except ε β} {xs : List α} {e : ε} :
    xs.mapM f = .error e ↔ ∃ before x after, xs = before ++ x :: after ∧
      (∀ other ∈ before, ∃ y, f other = .ok y) ∧ f x = .error e := by
  induction xs with
  | nil =>
    constructor
    · intro h
      cases h
    · rintro ⟨before, x, after, hnil, -⟩
      simp at hnil
  | cons x xs ih =>
    rw [List.mapM_cons, bind_eq_error_iff]
    constructor
    · rintro (hfirst | ⟨y, hy, hrest⟩)
      · exact ⟨[], x, xs, rfl, fun _ hmem => absurd hmem List.not_mem_nil, hfirst⟩
      · rcases bind_eq_error_iff.mp hrest with hmore | ⟨ys, -, hpure⟩
        · obtain ⟨before, other, after, rfl, hbefore, hother⟩ := ih.mp hmore
          exact ⟨x :: before, other, after, rfl,
            List.forall_mem_cons.mpr ⟨⟨y, hy⟩, hbefore⟩, hother⟩
        · cases hpure
    · rintro ⟨before, other, after, hsplit, hbefore, hother⟩
      cases before with
      | nil =>
        obtain ⟨rfl, rfl⟩ := List.cons.inj hsplit
        exact .inl hother
      | cons first before =>
        obtain ⟨rfl, rfl⟩ := List.cons.inj hsplit
        obtain ⟨⟨y, hy⟩, hmore⟩ := List.forall_mem_cons.mp hbefore
        exact .inr ⟨y, hy, bind_eq_error_iff.mpr (.inl (ih.mpr ⟨before, other, after, rfl, hmore,
          hother⟩))⟩

/-- A list of computations that fails does so as one of them. -/
theorem exists_of_mapM_eq_error {f : α → Except ε β} {xs : List α} {e : ε}
    (h : xs.mapM f = .error e) : ∃ x ∈ xs, f x = .error e := by
  obtain ⟨before, x, after, rfl, -, hfail⟩ := mapM_eq_error_iff.mp h
  exact ⟨x, List.mem_append_right before List.mem_cons_self, hfail⟩

/-- A list of computations each of which succeeds has results. -/
theorem exists_mapM_eq_ok {f : α → Except ε β} {xs : List α} (h : ∀ x ∈ xs, ∃ y, f x = .ok y) :
    ∃ ys, xs.mapM f = .ok ys := by
  induction xs with
  | nil => exact ⟨[], rfl⟩
  | cons x xs ih =>
    obtain ⟨y, hy⟩ := h x List.mem_cons_self
    obtain ⟨ys, hys⟩ := ih fun other hmem => h other (List.mem_cons_of_mem _ hmem)
    exact ⟨y :: ys, mapM_eq_ok_iff.mpr (.cons hy (mapM_eq_ok_iff.mp hys))⟩

/-- Computations that all succeed give their results in order. -/
theorem mapM_map_eq_ok {f : β → Except ε γ} {g : α → β} {h : α → γ} {xs : List α}
    (hf : ∀ x ∈ xs, f (g x) = .ok (h x)) : (xs.map g).mapM f = .ok (xs.map h) := by
  rw [mapM_eq_ok_iff, List.forall₂_map_left_iff, List.forall₂_map_right_iff, List.forall₂_same]
  exact hf

/-- Computations whose members and results are changed succeed as the unchanged ones do. -/
theorem exists_mapM_of_mapM_map {δ : Type} {f : β → Except ε δ} {g : α → β} {run : α → Except ε γ}
    {h : γ → δ} (hf : ∀ x y, f (g x) = .ok y → ∃ z, run x = .ok z ∧ h z = y) {xs : List α}
    {ys : List δ} (hys : (xs.map g).mapM f = .ok ys) :
    ∃ zs, xs.mapM run = .ok zs ∧ zs.map h = ys := by
  rw [mapM_eq_ok_iff, List.forall₂_map_left_iff] at hys
  induction hys with
  | nil => exact ⟨[], rfl, rfl⟩
  | cons hy _ ih =>
    obtain ⟨z, hz, rfl⟩ := hf _ _ hy
    obtain ⟨zs, hzs, rfl⟩ := ih
    exact ⟨z :: zs, mapM_eq_ok_iff.mpr (.cons hz (mapM_eq_ok_iff.mp hzs)), rfl⟩

/-- Computations that succeed also do after a change of their members, with the results changed. -/
theorem mapM_map_of_mapM {δ : Type} {f : β → Except ε δ} {g : α → β} {run : α → Except ε γ}
    {h : γ → δ} (hf : ∀ x z, run x = .ok z → f (g x) = .ok (h z)) {xs : List α} {zs : List γ}
    (hzs : xs.mapM run = .ok zs) : (xs.map g).mapM f = .ok (zs.map h) := by
  rw [mapM_eq_ok_iff, List.forall₂_map_left_iff, List.forall₂_map_right_iff]
  exact (mapM_eq_ok_iff.mp hzs).imp hf

/-- Each result of a list of computations is the result of one of them. -/
theorem exists_of_mem_mapM {f : α → Except ε β} {xs : List α} {ys : List β}
    (h : xs.mapM f = .ok ys) {y : β} (hy : y ∈ ys) : ∃ x ∈ xs, f x = .ok y := by
  induction mapM_eq_ok_iff.mp h with
  | nil => simp at hy
  | @cons x z xs zs hz hzs ih =>
    rcases List.mem_cons.mp hy with rfl | hmem
    · exact ⟨x, List.mem_cons_self, hz⟩
    · obtain ⟨other, hother, hf⟩ := ih (mapM_eq_ok_iff.mpr hzs) hmem
      exact ⟨other, List.mem_cons_of_mem _ hother, hf⟩

/-- What members that agree position by position have in common is the same for their lists. -/
theorem map_eq_of_forall₂ {f : α → γ} {g : β → γ} {as : List α} {bs : List β}
    (h : List.Forall₂ (fun a b => g b = f a) as bs) : bs.map g = as.map f := by
  induction h with
  | nil => rfl
  | cons hab _ ih => rw [List.map_cons, List.map_cons, hab, ih]

theorem flatMap_eq_of_forall₂ {f : α → List γ} {g : β → List γ} {as : List α} {bs : List β}
    (h : List.Forall₂ (fun a b => g b = f a) as bs) : bs.flatMap g = as.flatMap f := by
  rw [List.flatMap_def, List.flatMap_def, map_eq_of_forall₂ h]

/-- What computations leave alone is the same for their results. -/
theorem map_eq_of_mapM {f : α → Except ε β} {g : α → γ} {g' : β → γ}
    (hf : ∀ x y, f x = .ok y → g' y = g x) {xs : List α} {ys : List β}
    (h : xs.mapM f = .ok ys) : ys.map g' = xs.map g :=
  map_eq_of_forall₂ ((mapM_eq_ok_iff.mp h).imp fun x y hxy => hf x y hxy)

theorem flatMap_eq_of_mapM {f : α → Except ε β} {g : α → List γ} {g' : β → List γ}
    (hf : ∀ x y, f x = .ok y → g' y = g x) {xs : List α} {ys : List β}
    (h : xs.mapM f = .ok ys) : ys.flatMap g' = xs.flatMap g := by
  rw [List.flatMap_def, List.flatMap_def, map_eq_of_mapM hf h]

/-- Two lists that agree with a third one, position by position, agree with each other. -/
theorem forall₂_trans {R : α → β → Prop} {S : β → γ → Prop} {T : α → γ → Prop}
    (h : ∀ a b c, R a b → S b c → T a c) {as : List α} {bs : List β} {cs : List γ}
    (hr : List.Forall₂ R as bs) (hs : List.Forall₂ S bs cs) : List.Forall₂ T as cs := by
  induction hr generalizing cs with
  | nil => rw [List.forall₂_nil_left_iff.mp hs]; exact .nil
  | cons ha _ ih =>
    obtain ⟨c, rest, hc, hrest, rfl⟩ := List.forall₂_cons_left_iff.mp hs
    exact .cons (h _ _ _ ha hc) (ih hrest)

/-- Lists that agree, position by position, agree in what follows for the members of the first. -/
theorem forall₂_of_mem {R S : α → β → Prop} {as : List α} {bs : List β} (h : List.Forall₂ R as bs)
    (hs : ∀ a ∈ as, ∀ b, R a b → S a b) : List.Forall₂ S as bs := by
  induction h with
  | nil => exact .nil
  | cons hab _ ih =>
    obtain ⟨hfirst, hrest⟩ := List.forall_mem_cons.mp hs
    exact .cons (hfirst _ hab) (ih hrest)

/-- A member of a list that agrees with another one agrees with a member of it. -/
theorem exists_mem_of_forall₂ {R : α → β → Prop} {as : List α} {bs : List β}
    (hr : List.Forall₂ R as bs) {a : α} (ha : a ∈ as) : ∃ b ∈ bs, R a b := by
  induction hr with
  | nil => simp at ha
  | @cons first b as bs hfirst _ ih =>
    rcases List.mem_cons.mp ha with rfl | hmem
    · exact ⟨b, List.mem_cons_self, hfirst⟩
    · obtain ⟨other, hother, hrel⟩ := ih hmem
      exact ⟨other, List.mem_cons_of_mem _ hother, hrel⟩

/-- What lists agree in without regard to the second one holds of the members of the first. -/
theorem forall_mem_of_forall₂ {P : α → Prop} {as : List α} {bs : List β}
    (h : List.Forall₂ (fun a _ => P a) as bs) : ∀ a ∈ as, P a := by
  intro a hmem
  obtain ⟨_, _, ha⟩ := exists_mem_of_forall₂ h hmem
  exact ha

/-- Searches that test alike in two lists that agree find members that agree, or both nothing. -/
theorem find?_of_forall₂ {R : α → β → Prop} {p : α → Bool} {q : β → Bool} {as : List α}
    {bs : List β} (hr : List.Forall₂ R as bs) (h : ∀ a b, R a b → p a = q b) :
    (as.find? p = none ∧ bs.find? q = none) ∨
      ∃ a b, as.find? p = some a ∧ bs.find? q = some b ∧ R a b := by
  induction hr with
  | nil => exact Or.inl ⟨rfl, rfl⟩
  | @cons a b as bs hab _ ih =>
    have he := h a b hab
    cases hq : q b with
    | true => exact Or.inr ⟨a, b, by simp [he, hq], by simp [hq], hab⟩
    | false => simpa [List.find?_cons, he, hq] using ih

end Interpose
