import Interpose.Disk.Tree
import Interpose.Proofs.Except
import Interpose.Proofs.Text.Octets
import Mathlib.Data.List.Basic

/-!
# Writing to a tree of files

A path can be opened for writing exactly when it leads to a name in a directory and no directory
stands there. The file then holds the octets of the text, and is read under the same path; every
other file and all directories are as they were. Only the sink keeps nothing. A text without octets
leaves the file empty.
-/

namespace Interpose.Tree

/-- A path can be opened for writing: it leads to a name at which there is no directory. -/
structure Opens (tree : Tree) (path : String) (names : Names) : Prop where
  /-- The path leads to the name and does not ask for a directory. -/
  leads : tree.spot path = .ok (.entry names false)
  /-- There is a file or nothing. -/
  free : tree.target names = .ok .nothing ∨ ∃ octets, tree.target names = .ok (.file octets)

/-- One tree is another one but for a file, which holds some octets. -/
structure Written (before after : Tree) (names : Names) (octets : List UInt8) : Prop where
  /-- The file holds the octets, unless nothing that is written to it is kept. -/
  holds : names ≠ sink → after.files.lookup names = some octets
  /-- Nothing is kept of what is written to the sink. -/
  sink : names = Tree.sink → after = before
  /-- Every other file is what it was, and none is made. -/
  others : ∀ other, other ≠ names → after.files.lookup other = before.files.lookup other
  /-- No directory is made. -/
  directories : after.directories = before.directories

/-- A file is opened exactly where a path can be opened. -/
theorem openAt_eq_ok_iff {tree : Tree} {path : String} {names : Names} :
    tree.atPath path tree.openAt = .ok names ↔ tree.Opens path names := by
  have hat : tree.atPath path tree.openAt = .ok names ↔
      tree.spot path >>= tree.openAt = .ok names := by
    rw [atPath]
    cases tree.spot path >>= tree.openAt <;> simp
  rw [hat, bind_eq_ok_iff]
  constructor
  · rintro ⟨spot, hspot, hopen⟩
    match spot, hopen with
    | .directory _, hopen => cases hopen
    | .entry _ true, hopen => cases hopen
    | .entry names false, hopen =>
      rw [openAt] at hopen
      obtain ⟨target, htarget, hopen⟩ := bind_eq_ok_iff.mp hopen
      cases target with
      | directory => cases hopen
      | file octets =>
        obtain rfl := Except.ok.inj hopen
        exact ⟨hspot, .inr ⟨octets, htarget⟩⟩
      | nothing =>
        obtain rfl := Except.ok.inj hopen
        exact ⟨hspot, .inl htarget⟩
  · rintro ⟨hleads, hfree⟩
    refine ⟨_, hleads, ?_⟩
    rw [openAt]
    obtain hnothing | ⟨octets, hfile⟩ := hfree
    · rw [hnothing]
      rfl
    · rw [hfile]
      rfl

/-! ## The changed tree -/

section

variable (tree : Tree) (names : Names) (octets : List UInt8)

@[simp] theorem directories_put : (tree.put names octets).directories = tree.directories := by
  rw [put]
  split
  · rfl
  · split <;> rfl

/-- The octets of one file are replaced. -/
theorem lookup_replaced (files : List (Names × List UInt8)) (other : Names) :
    (files.map fun file => if file.1 = names then (names, octets) else file).lookup other =
      if other = names then (files.lookup names).map fun _ => octets else files.lookup other := by
  induction files with
  | nil => simp
  | cons file files ih =>
    obtain ⟨name, held⟩ := file
    rw [List.map_cons]
    by_cases hname : name = names
    · by_cases hother : other = names
      · simp [hname, hother]
      · simp [hname, hother, List.lookup_cons, beq_false_of_ne hother, ih]
    · by_cases hother : other = names
      · subst hother
        simp [hname, List.lookup_cons, beq_false_of_ne (Ne.symm hname), ih]
      · simp [hname, hother, List.lookup_cons, ih]

/-- A file that is put holds its octets. -/
theorem lookup_put_self (h : names ≠ sink) :
    (tree.put names octets).files.lookup names = some octets := by
  rw [put, if_neg h]
  split
  · rename_i hsome
    obtain ⟨held, hheld⟩ := Option.isSome_iff_exists.mp hsome
    simp [lookup_replaced, hheld]
  · rename_i hnone
    rw [Option.not_isSome_iff_eq_none] at hnone
    simp [List.lookup_append, hnone]

/-- The other files are what they were. -/
theorem lookup_put_of_ne {other : Names} (h : other ≠ names) :
    (tree.put names octets).files.lookup other = tree.files.lookup other := by
  rw [put]
  split
  · rfl
  · split
    · simp [lookup_replaced, h]
    · simp [List.lookup_append, List.lookup_cons, beq_false_of_ne h]

/-- Only what is put last is kept. -/
theorem put_put (others : List UInt8) :
    (tree.put names others).put names octets = tree.put names octets := by
  by_cases hsink : names = sink
  · rw [put, if_pos hsink, put, if_pos hsink, put, if_pos hsink]
  · have hsome : ((tree.put names others).files.lookup names).isSome = true := by
      rw [lookup_put_self tree names others hsink]
      rfl
    rw [put, if_neg hsink, if_pos hsome, put, put, if_neg hsink, if_neg hsink]
    by_cases hthere : (tree.files.lookup names).isSome = true
    · rw [if_pos hthere, if_pos hthere, List.map_map]
      congr 1
      refine List.map_congr_left fun file _ => ?_
      by_cases hname : file.1 = names <;> simp [hname]
    · have hkeep : tree.files.map (fun file => if file.1 = names then (names, octets) else file) =
          tree.files := by
        refine (List.map_congr_left fun file hmem => if_neg ?_).trans (List.map_id _)
        rintro rfl
        have hnone := List.lookup_eq_none_iff.mp (Option.not_isSome_iff_eq_none.mp hthere)
        simpa using hnone file hmem
      rw [if_neg hthere, if_neg hthere, List.map_append, hkeep]
      simp

/-- Putting octets into a file changes that file only. -/
theorem written_put : Written tree (tree.put names octets) names octets where
  holds := lookup_put_self tree names octets
  sink h := by rw [put, if_pos h]
  others _ := lookup_put_of_ne tree names octets
  directories := directories_put tree names octets

/-- The names of the files are what they were, with the file that is put. -/
theorem mem_names_put {other : Names} :
    other ∈ (tree.put names octets).files.map Prod.fst ↔
      other ∈ tree.files.map Prod.fst ∨ names ≠ sink ∧ other = names := by
  rw [put]
  split
  · rename_i hsink
    simp [hsink]
  · rename_i hsink
    split
    · rename_i hsome
      have hkept : Prod.fst ∘ (fun file => if file.1 = names then (names, octets) else file) =
          (Prod.fst : Names × List UInt8 → Names) := by
        funext file
        by_cases hname : file.1 = names <;> simp [hname]
      obtain ⟨held, hheld⟩ := Option.isSome_iff_exists.mp hsome
      have hin : names ∈ tree.files.map Prod.fst := by
        obtain ⟨front, back, hsplit, -⟩ := List.lookup_eq_some_iff.mp hheld
        simp [hsplit]
      rw [List.map_map, hkept]
      constructor
      · exact .inl
      · rintro (hmem | ⟨-, rfl⟩)
        · exact hmem
        · exact hin
    · simp [hsink]

/-- There is a directory where one is made or a file stands below. -/
theorem isDirectory_iff {other : Names} :
    tree.isDirectory other = true ↔ other = [] ∨ (∃ below ∈ tree.directories, other <+: below) ∨
      ∃ below ∈ tree.files.map Prod.fst, other <+: below ∧ other ≠ below := by
  rw [isDirectory]
  simp [or_assoc]

/-- Directories stay directories. -/
theorem isDirectory_put {other : Names} (h : tree.isDirectory other = true) :
    (tree.put names octets).isDirectory other = true := by
  rw [isDirectory_iff] at h ⊢
  rw [directories_put]
  obtain hroot | hmade | ⟨below, hmem, hbelow⟩ := h
  · exact .inl hroot
  · exact .inr (.inl hmade)
  · exact .inr (.inr ⟨below, (mem_names_put tree names octets).mpr (.inl hmem), hbelow⟩)

/-- A file that is put is no directory for it. -/
theorem isDirectory_put_self :
    (tree.put names octets).isDirectory names = tree.isDirectory names := by
  rw [Bool.eq_iff_iff]
  constructor
  · intro h
    rw [isDirectory_iff] at h ⊢
    rw [directories_put] at h
    obtain hroot | hmade | ⟨below, hmem, hbelow, hne⟩ := h
    · exact .inl hroot
    · exact .inr (.inl hmade)
    · obtain hold | ⟨-, rfl⟩ := (mem_names_put tree names octets).mp hmem
      · exact .inr (.inr ⟨below, hold, hbelow, hne⟩)
      · exact absurd rfl hne
  · exact isDirectory_put tree names octets

end

variable {tree : Tree} {names : Names}

/-- What is a directory stays one. -/
theorem target_put_directory {other : Names} (h : tree.target other = .ok .directory)
    (octets : List UInt8) : (tree.put names octets).target other = .ok .directory := by
  rw [target] at h ⊢
  split at h
  · cases h
  · rename_i hlong
    rw [if_neg hlong]
    split at h
    · rename_i hdirectory
      rw [if_pos (isDirectory_put tree names octets hdirectory)]
    · cases hlook : tree.files.lookup other <;> simp [hlook] at h

/-- A path leads where it led. -/
theorem walk_put {base : Names} {path : List (List Char)} {spot : Spot}
    (h : tree.walk base path = .ok spot) (octets : List UInt8) :
    (tree.put names octets).walk base path = .ok spot := by
  induction path generalizing base with
  | nil => exact h
  | cons name rest ih =>
    rw [walk] at h ⊢
    split
    · rename_i hidle
      rw [if_pos hidle] at h
      exact ih h
    · rename_i hidle
      rw [if_neg hidle] at h
      split
      · rename_i hup
        rw [if_pos hup] at h
        exact ih h
      · rename_i hup
        rw [if_neg hup] at h
        simp only at h ⊢
        split
        · rename_i hlast
          rw [if_pos hlast] at h
          exact h
        · rename_i hlast
          rw [if_neg hlast] at h
          cases htarget : tree.target (base ++ [String.ofList name]) with
          | error cause => simp [htarget] at h
          | ok target =>
            cases target with
            | directory =>
              simp only [htarget] at h
              rw [target_put_directory htarget octets]
              exact ih h
            | file held => simp [htarget] at h
            | nothing => simp [htarget] at h

/-- A path leads where it led. -/
theorem spot_put {path : String} {spot : Spot} (h : tree.spot path = .ok spot)
    (octets : List UInt8) : (tree.put names octets).spot path = .ok spot := by
  rw [Tree.spot] at h ⊢
  split at h
  · cases h
  · rename_i hzero
    rw [if_neg hzero]
    split at h
    · cases h
    · rename_i hempty
      rw [if_neg hempty]
      split at h
      · cases h
      · rename_i hlong
        rw [if_neg hlong]
        exact walk_put h octets

/-- What is written under a path is read under it. -/
theorem Opens.read_put {path : String} (h : tree.Opens path names) (hsink : names ≠ sink)
    (octets : List UInt8) : (tree.put names octets).read path = .ok octets := by
  have htarget : (tree.put names octets).target names = .ok (.file octets) := by
    have hfree : ¬ (names.any fun name => longestName < name.utf8ByteSize) = true ∧
        ¬ tree.isDirectory names = true := by
      have hfree := h.free
      rw [target] at hfree
      constructor
      · intro hlong
        simp [hlong] at hfree
      · intro hdirectory
        simp [hdirectory] at hfree
        split at hfree <;> simp at hfree
    rw [target, if_neg hfree.1, isDirectory_put_self, if_neg hfree.2, lookup_put_self _ _ _ hsink]
    rfl
  rw [read, atPath, spot_put h.leads octets]
  simp only [bind, Except.bind, readAt, htarget]
  rfl

/-! ## Written texts -/

section

variable {path : String} (h : tree.Opens path names)
include h

/-- A string is written where a path can be opened. -/
theorem Opens.write_points (text : String) : tree.write path (Text.points text) =
    (.ok (), tree.put names (Text.encodeOctets text)) := by
  rw [write, openAt_eq_ok_iff.mpr h]
  simp only [Text.encodePoints_points, put_put]

/-- A text without octets leaves an empty file. -/
theorem Opens.write_surrogates {text : List Text.CodePoint} {fault : Text.OctetFault}
    (hfault : Text.encodePoints text = .error fault) :
    tree.write path text = (.error (.octets fault), tree.put names []) := by
  rw [write, openAt_eq_ok_iff.mpr h]
  simp only [hfault]

end

/-- Where a path cannot be opened, the tree is left as it is. -/
theorem exists_write_eq_error {path : String} (h : ∀ names, ¬tree.Opens path names)
    (text : List Text.CodePoint) :
    ∃ fault, tree.write path text = (.error (.file fault), tree) := by
  rw [write]
  cases hopen : tree.atPath path tree.openAt with
  | error fault => exact ⟨fault, rfl⟩
  | ok names => exact absurd (openAt_eq_ok_iff.mp hopen) (h names)

end Interpose.Tree
