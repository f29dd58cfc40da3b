import Interpose.Proofs.Service.Collection
import Mathlib.Data.List.Destutter

/-!
# The order of references

References are compared by their paths, code point by code point, and never by where they are
declared. Sorting them is stable, so a collected registry is what the middlewares of the methods
come to when they are listed in their order, sorted, and cut down to the first of each run of equal
ones: every path is kept with the place of its first declaration.
-/

namespace Interpose

/-- A hash of a reference is one of its path. -/
def MiddlewareRef.hashBy (hash : String → UInt64) (ref : MiddlewareRef) : UInt64 := hash ref.path

namespace Registry

/-! ## Comparing references -/

theorem before_eq_true_iff {a b : MiddlewareRef} : a.before b = true ↔ a.path < b.path := by
  rw [MiddlewareRef.before, decide_eq_true_eq]

theorem before_eq_false_iff {a b : MiddlewareRef} : a.before b = false ↔ b.path ≤ a.path := by
  rw [MiddlewareRef.before, decide_eq_false_iff_not, not_lt]

theorem same_eq_false_iff {a b : MiddlewareRef} : a.same b = false ↔ a.path ≠ b.path := by
  rw [← Bool.not_eq_true, same_eq_true_iff]

/-- Add a reference to those with other hashes, and to those with its hash that are not the same. -/
def addHashed (hash : String → UInt64) (refs : List MiddlewareRef) (ref : MiddlewareRef) :
    List MiddlewareRef :=
  if refs.any fun other => other.hashBy hash = ref.hashBy hash ∧ other.same ref = true then refs
  else refs ++ [ref]

/-- A reference is added unless there is one with its path. -/
theorem addHashed_eq (hash : String → UInt64) (refs : List MiddlewareRef) (ref : MiddlewareRef) :
    addHashed hash refs ref = if refs.any (·.same ref) then refs else refs ++ [ref] := by
  have hany : (refs.any fun other =>
      other.hashBy hash = ref.hashBy hash ∧ other.same ref = true) = refs.any (·.same ref) := by
    congr 1
    funext other
    cases hsame : other.same ref with
    | false => simp
    | true =>
      have hpath := same_eq_true_iff.mp hsame
      simp [MiddlewareRef.hashBy, hpath]
  rw [addHashed, hany]

/-- What is added one after the other is what is distinct among it and new. -/
theorem foldl_addHashed (hash : String → UInt64) (refs kept : List MiddlewareRef) :
    refs.foldl (addHashed hash) kept =
      kept ++ (distinct refs).filter fun ref => !kept.any (·.same ref) := by
  induction refs generalizing kept with
  | nil => simp [distinct]
  | cons ref refs ih =>
    rw [List.foldl_cons, ih, addHashed_eq, distinct]
    cases hany : kept.any (·.same ref) with
    | true =>
      -- A reference with the path of `ref` is there already, so leaving `ref` out changes nothing.
      rw [if_pos rfl, List.filter_cons_of_neg (by simp [hany]), List.filter_filter]
      congr 1
      apply List.filter_congr
      intro other _
      obtain ⟨first, hfirst, hsame⟩ := List.any_eq_true.mp hany
      by_cases hother : ref.path = other.path
      · have hmem : kept.any (·.same other) = true := by
          refine List.any_eq_true.mpr ⟨first, hfirst, ?_⟩
          exact same_eq_true_iff.mpr ((same_eq_true_iff.mp hsame).trans hother)
        simp [hmem]
      · simp [same_eq_false_iff.mpr hother]
    | false =>
      rw [if_neg Bool.false_ne_true, List.filter_cons_of_pos (by simp [hany]), List.filter_filter,
        List.append_assoc, List.singleton_append]
      congr 2
      apply List.filter_congr
      intro other _
      simp [Bool.and_comm]

/-- How references are compared. -/
structure OrderedByPath : Prop where
  /-- One stands before another when its path does, in the order of code points. -/
  codePoints : ∀ a b : MiddlewareRef, a.before b = true ↔
    List.Lex (fun c d : Char => c.toNat < d.toNat) a.path.toList b.path.toList
  /-- Of two references the first is before the second, the same as it, or after it, and only one
  of these. -/
  exactlyOne : ∀ a b : MiddlewareRef,
    (a.before b = true ∧ a.same b = false ∧ b.before a = false) ∨
    (a.before b = false ∧ a.same b = true ∧ b.before a = false) ∨
    (a.before b = false ∧ a.same b = false ∧ b.before a = true)
  /-- What stands before a reference stands before what that one stands before. -/
  trans : ∀ a b c : MiddlewareRef, a.before b = true → b.before c = true → a.before c = true
  /-- At most means before or the same. -/
  atMost : ∀ a b : MiddlewareRef, a.atMost b = (a.before b || a.same b)
  /-- Two references are the same when no hash tells them apart. -/
  hashed : ∀ a b : MiddlewareRef, a.same b = true ↔ ∀ hash, a.hashBy hash = b.hashBy hash
  /-- A set that is kept by hash holds the distinct ones of the references that are added to it. -/
  sets : ∀ hash refs, refs.foldl (addHashed hash) [] = distinct refs
  /-- Where they are declared makes no difference. -/
  spans : ∀ (a b : MiddlewareRef) (here there : Span),
    MiddlewareRef.before { a with span := here } { b with span := there } = a.before b ∧
    MiddlewareRef.same { a with span := here } { b with span := there } = a.same b

theorem orderedByPath : OrderedByPath := by
  refine ⟨?_, ?_, ?_, ?_, ?_, ?_, fun _ _ _ _ => ⟨rfl, rfl⟩⟩
  · intro a b
    rw [before_eq_true_iff]
    exact Iff.rfl
  · intro a b
    simp only [before_eq_true_iff, before_eq_false_iff, same_eq_true_iff, same_eq_false_iff]
    rcases lt_trichotomy a.path b.path with hlt | heq | hgt
    · exact .inl ⟨hlt, hlt.ne, hlt.le⟩
    · exact .inr (.inl ⟨heq.ge, heq, heq.le⟩)
    · exact .inr (.inr ⟨hgt.le, hgt.ne', hgt⟩)
  · intro a b c hab hbc
    rw [before_eq_true_iff] at *
    exact hab.trans hbc
  · intro a b
    rw [Bool.eq_iff_iff, atMost_eq_true_iff, Bool.or_eq_true, before_eq_true_iff,
      same_eq_true_iff, le_iff_lt_or_eq]
  · intro a b
    rw [same_eq_true_iff]
    constructor
    · intro hpath hash
      rw [MiddlewareRef.hashBy, hpath, MiddlewareRef.hashBy]
    · intro hhash
      -- A hash that marks the path of the first reference.
      have hmark := hhash fun path => if path = a.path then 1 else 0
      by_contra hne
      simp [MiddlewareRef.hashBy, Ne.symm hne] at hmark
  · intro hash refs
    rw [foldl_addHashed]
    simp

/-! ## Stable sorting -/

/-- A list of references in the order of their paths, in which references with one path stand in
the order of another list. -/
structure StablySorted (refs sorted : List MiddlewareRef) : Prop where
  /-- Every reference stands there as often as in the other list. -/
  perm : sorted.Perm refs
  /-- No reference stands after one with a later path. -/
  ordered : sorted.Pairwise fun a b => a.atMost b = true
  /-- Those with one path keep their order. -/
  stable : ∀ path,
    (sorted.filter fun ref => ref.path = path) = refs.filter fun ref => ref.path = path

/-- Sorting is stable. -/
theorem stablySorted_sort (refs : List MiddlewareRef) : StablySorted refs (sort refs) := by
  have hperm : (sort refs).Perm refs := List.mergeSort_perm refs MiddlewareRef.atMost
  have htrans : ∀ a b c : MiddlewareRef, a.atMost b = true → b.atMost c = true →
      a.atMost c = true := fun _ _ _ => atMost_trans
  refine ⟨hperm, List.pairwise_mergeSort htrans atMost_total refs, fun path => ?_⟩
  -- References with one path are in order already, so they stand in the sorted list as they are.
  have hordered : (refs.filter fun ref => ref.path = path).Pairwise
      fun a b => a.atMost b = true := by
    apply List.pairwise_of_forall_mem_list
    intro a ha b hb
    have hpaths : a.path = path ∧ b.path = path := by
      simpa using And.intro (List.mem_filter.mp ha).2 (List.mem_filter.mp hb).2
    exact atMost_eq_true_iff.mpr (hpaths.1.trans hpaths.2.symm).le
  have hsublist : (refs.filter fun ref => ref.path = path).Sublist (sort refs) :=
    List.sublist_mergeSort htrans atMost_total hordered List.filter_sublist
  have hfiltered := hsublist.filter fun ref => ref.path = path
  rw [List.filter_filter] at hfiltered
  simp only [Bool.and_self] at hfiltered
  exact (hfiltered.eq_of_length (hperm.filter _).length_eq.symm).symm

/-- Lists that hold the same references of each path hold the same references. -/
theorem mem_iff_of_filter {refs others : List MiddlewareRef}
    (h : ∀ path, (refs.filter fun ref => ref.path = path) =
      others.filter fun ref => ref.path = path) (ref : MiddlewareRef) :
    ref ∈ refs ↔ ref ∈ others := by
  have hpath : (ref ∈ refs.filter fun other => other.path = ref.path) ↔
      ref ∈ others.filter fun other => other.path = ref.path := by rw [h ref.path]
  simpa [List.mem_filter] using hpath

/-- Lists in order that hold the same references of each path, in the same order, are equal. -/
theorem eq_of_ordered {refs others : List MiddlewareRef}
    (hrefs : refs.Pairwise fun a b => a.atMost b = true)
    (hothers : others.Pairwise fun a b => a.atMost b = true)
    (h : ∀ path, (refs.filter fun ref => ref.path = path) =
      others.filter fun ref => ref.path = path) : refs = others := by
  induction refs generalizing others with
  | nil =>
    have hnone : ∀ ref, ref ∉ others := fun ref href =>
      List.not_mem_nil ((mem_iff_of_filter h ref).mpr href)
    exact (List.eq_nil_iff_forall_not_mem.mpr hnone).symm
  | cons a refs ih =>
    cases others with
    | nil => exact absurd ((mem_iff_of_filter h a).mp List.mem_cons_self) List.not_mem_nil
    | cons b others =>
      obtain ⟨hfirst, hrest⟩ := List.pairwise_cons.mp hrefs
      obtain ⟨hfirst', hrest'⟩ := List.pairwise_cons.mp hothers
      -- Each first reference is in the other list too, so neither stands before the other.
      have hab : a.path ≤ b.path := by
        rcases List.mem_cons.mp ((mem_iff_of_filter h b).mpr List.mem_cons_self) with rfl | hb
        · exact le_rfl
        · exact atMost_eq_true_iff.mp (hfirst b hb)
      have hba : b.path ≤ a.path := by
        rcases List.mem_cons.mp ((mem_iff_of_filter h a).mp List.mem_cons_self) with rfl | ha
        · exact le_rfl
        · exact atMost_eq_true_iff.mp (hfirst' a ha)
      have hpath : b.path = a.path := le_antisymm hba hab
      have hhead := h a.path
      rw [List.filter_cons_of_pos (by simp), List.filter_cons_of_pos (by simp [hpath])] at hhead
      obtain ⟨rfl, -⟩ := List.cons.inj hhead
      congr 1
      apply ih hrest hrest'
      intro path
      have hpaths := h path
      by_cases hsame : a.path = path
      · rw [List.filter_cons_of_pos (by simp [hsame]), List.filter_cons_of_pos (by simp [hsame])]
          at hpaths
        exact (List.cons.inj hpaths).2
      · rwa [List.filter_cons_of_neg (by simp [hsame]), List.filter_cons_of_neg (by simp [hsame])]
          at hpaths

/-- There is one way to sort a list stably. -/
theorem StablySorted.eq_sort {refs sorted : List MiddlewareRef} (h : StablySorted refs sorted) :
    sorted = sort refs := by
  have hsort := stablySorted_sort refs
  apply eq_of_ordered h.ordered hsort.ordered
  intro path
  rw [h.stable, hsort.stable]

/-! ## Runs of equal references -/

/-- The first of each run of references that are the same. -/
def runHeads (refs : List MiddlewareRef) : List MiddlewareRef :=
  refs.destutter fun a b => a.same b = false

theorem distinct_sublist (refs : List MiddlewareRef) : (distinct refs).Sublist refs := by
  induction refs with
  | nil => exact .slnil
  | cons ref refs ih => exact (List.filter_sublist.trans ih).cons_cons ref

/-- Of each path the first reference is kept. -/
theorem filter_distinct (path : String) (refs : List MiddlewareRef) :
    ((distinct refs).filter fun ref => ref.path = path) =
      (refs.find? fun ref => ref.path = path).toList := by
  induction refs with
  | nil => rfl
  | cons first refs ih =>
    rw [distinct, List.find?_cons]
    by_cases hpath : first.path = path
    · have hnone : ∀ ref ∈ (distinct refs).filter fun other => !first.same other,
          ¬ decide (ref.path = path) = true := by
        intro ref href
        have hother := (List.mem_filter.mp href).2
        rw [Bool.not_eq_true', same_eq_false_iff, hpath] at hother
        simpa using Ne.symm hother
      rw [List.filter_cons_of_pos (by simp [hpath]), List.filter_eq_nil_iff.mpr hnone]
      simp [hpath]
    · have hkept : ∀ ref ∈ distinct refs, (decide (ref.path = path) && !first.same ref) =
          decide (ref.path = path) := by
        intro ref _
        by_cases href : ref.path = path
        · have hother : first.same ref = false :=
            same_eq_false_iff.mpr fun heq => hpath (heq.trans href)
          simp [hother]
        · simp [href]
      rw [List.filter_cons_of_neg (by simp [hpath]), List.filter_filter, List.filter_congr hkept,
        ih]
      simp [hpath]

/-- A reference between two that are the same is left out with the second one. -/
theorem distinct_cons_of_same {first next : MiddlewareRef} (h : first.same next = true)
    (refs : List MiddlewareRef) : distinct (first :: next :: refs) = distinct (first :: refs) := by
  rw [distinct, distinct, List.filter_cons_of_neg (by simp [h]), List.filter_filter, distinct]
  congr 1
  apply List.filter_congr
  intro ref _
  rw [Bool.and_eq_left_iff_imp, Bool.not_eq_true', Bool.not_eq_true', same_eq_false_iff,
    same_eq_false_iff, same_eq_true_iff.mp h]
  exact id

/-- A reference in front of others with other paths is kept, and they are kept as without it. -/
theorem distinct_cons_of_new {first : MiddlewareRef} {refs : List MiddlewareRef}
    (h : ∀ ref ∈ refs, first.same ref = false) :
    distinct (first :: refs) = first :: distinct refs := by
  rw [distinct, List.filter_eq_self.mpr]
  intro ref href
  rw [h ref ((distinct_sublist refs).subset href)]
  rfl

theorem destutter'_eq_distinct {refs : List MiddlewareRef} {first : MiddlewareRef}
    (h : (first :: refs).Pairwise fun a b => a.atMost b = true) :
    refs.destutter' (fun a b => a.same b = false) first = distinct (first :: refs) := by
  induction refs generalizing first with
  | nil => rfl
  | cons next refs ih =>
    obtain ⟨hfirst, hrest⟩ := List.pairwise_cons.mp h
    rw [List.destutter'_cons]
    cases hsame : first.same next with
    | true =>
      rw [if_neg (by decide), distinct_cons_of_same hsame]
      exact ih (h.sublist ((List.sublist_cons_self next refs).cons_cons first))
    | false =>
      have hlt : first.path < next.path :=
        lt_of_le_of_ne (atMost_eq_true_iff.mp (hfirst next List.mem_cons_self))
          (same_eq_false_iff.mp hsame)
      have hnew : ∀ ref ∈ next :: refs, first.same ref = false := by
        intro ref href
        rcases List.mem_cons.mp href with rfl | hmem
        · exact hsame
        · have hnext := atMost_eq_true_iff.mp ((List.pairwise_cons.mp hrest).1 ref hmem)
          exact same_eq_false_iff.mpr (hlt.trans_le hnext).ne
      rw [if_pos rfl, ih hrest, distinct_cons_of_new hnew]

/-- In a list in order the references with one path stand next to each other, so those that are
distinct are the first ones of the runs. -/
theorem runHeads_eq_distinct {refs : List MiddlewareRef}
    (h : refs.Pairwise fun a b => a.atMost b = true) : runHeads refs = distinct refs := by
  cases refs with
  | nil => rfl
  | cons first refs => exact destutter'_eq_distinct h

/-- Leaving out what is not distinct commutes with sorting. -/
theorem sort_distinct (refs : List MiddlewareRef) :
    sort (distinct refs) = distinct (sort refs) := by
  have hdistinct := stablySorted_sort (distinct refs)
  have hsort := stablySorted_sort refs
  apply eq_of_ordered hdistinct.ordered (hsort.ordered.sublist (distinct_sublist _))
  intro path
  rw [hdistinct.stable, filter_distinct, filter_distinct, ← List.head?_filter, ← hsort.stable,
    List.head?_filter]

/-- How the registry of some methods comes of the middlewares that they list. -/
structure Collected (methods : List Rpc) (registry : Registry) : Prop where
  /-- It is the first of each run of equal ones, once they are sorted stably. -/
  runs : ∀ sorted, StablySorted (methods.flatMap (·.middlewares)) sorted →
    registry = runHeads sorted
  /-- There is one way to sort them stably. -/
  sorts : ∃! sorted, StablySorted (methods.flatMap (·.middlewares)) sorted
  /-- Every reference of the registry is the first of its path that the methods list. -/
  first : ∀ ref ∈ registry,
    ((methods.flatMap (·.middlewares)).find? fun other => other.path = ref.path) = some ref

/-- A collected registry is the sorted list of the middlewares of the methods without repetitions,
in an order that looks at nothing but paths. -/
theorem collected (methods : List Rpc) : Collected methods (collect methods) ∧ OrderedByPath := by
  refine ⟨⟨?_, ?_, ?_⟩, orderedByPath⟩
  · intro sorted hsorted
    rw [hsorted.eq_sort, runHeads_eq_distinct (stablySorted_sort _).ordered, ← sort_distinct,
      collect]
  · exact ⟨_, stablySorted_sort _, fun sorted hsorted => hsorted.eq_sort⟩
  · intro ref href
    have hmem : ref ∈ (distinct (methods.flatMap (·.middlewares))).filter
        fun other => other.path = ref.path :=
      List.mem_filter.mpr ⟨(stablySorted_sort _).perm.mem_iff.mp href, by simp⟩
    rw [filter_distinct, Option.mem_toList] at hmem
    exact hmem

end Registry

end Interpose
