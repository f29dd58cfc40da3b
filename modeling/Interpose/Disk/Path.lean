import Interpose.Text.Lines

/-!
# Paths

A path is a text in which slashes set names apart. Joining two paths drops empty names and
single dots, and a path that begins with a slash stands by itself. What is dropped says nothing
about where a path leads: the names that say something are kept, in their order.
-/

namespace Interpose.Path

/-- Whether a name says nothing about where a path leads. -/
def isIdle (name : List Char) : Bool := name == [] || name == ['.']

/-- Whether a path begins at the root. -/
def isAbsolute (path : List Char) : Bool := path.head? == some '/'

/-- The slashes that a path keeps at its beginning: two when there are exactly two. -/
def root (path : List Char) : List Char :=
  match (path.takeWhile (· = '/')).length with
  | 0 => []
  | 2 => ['/', '/']
  | _ => ['/']

/-- The names of a path that say where it leads. -/
def steps (path : List Char) : List (List Char) :=
  (path.splitOn '/').filter fun name => !isIdle name

/-- The path that keeps the given slashes and leads through the given names. -/
def ofSteps (root : List Char) (steps : List (List Char)) : List Char :=
  match root ++ ['/'].intercalate steps with
  | [] => ['.']
  | path => path

/-- A path without empty names and single dots. -/
def tidy (path : List Char) : List Char := ofSteps (root path) (steps path)

/-- A path and the paths above it, from the path upwards. -/
def upwards (path : List Char) : List (List Char) :=
  (List.range ((steps path).length + 1)).reverse.map fun count =>
    ofSteps (root path) ((steps path).take count)

/-- The path of a name under a directory. -/
def join (directory name : String) : String :=
  let name := name.toList
  let directory := directory.toList
  String.ofList (tidy
    (if directory.isEmpty || isAbsolute name then name else directory ++ '/' :: name))

/-! ## Where paths lead -/

/-- A path below another one leads through the names of both. -/
theorem steps_append_slash (above below : List Char) :
    steps (above ++ '/' :: below) = steps above ++ steps below := by
  rw [steps, List.splitOn_append_cons_self, List.filter_append, steps, steps]

/-- The slashes at the beginning of a path are no names. -/
theorem steps_root_append (path more : List Char) : steps (root path ++ more) = steps more := by
  unfold root
  split
  · rfl
  · exact (steps_append_slash [] ('/' :: more)).trans (steps_append_slash [] more)
  · exact steps_append_slash [] more

/-- A path that is written from names leads through them. -/
theorem steps_ofSteps (path : List Char) {names : List (List Char)}
    (h : ∀ name ∈ names, '/' ∉ name ∧ isIdle name = false) :
    steps (ofSteps (root path) names) = names := by
  have hnames : steps (['/'].intercalate names) = names := by
    cases names with
    | nil => rfl
    | cons name names =>
      rw [steps, List.splitOn_intercalate '/' (fun name hmem => (h name hmem).1) (by simp)]
      exact List.filter_eq_self.mpr fun name hmem => by simp [(h name hmem).2]
  unfold ofSteps
  split
  · rename_i hempty
    have hnone : names = [] := by
      rw [← hnames, (List.append_eq_nil_iff.mp hempty).2]
      rfl
    rw [hnone]
    rfl
  · rw [steps_root_append, hnames]

/-- No name of a path holds a slash, and each says something. -/
theorem of_mem_steps {path name : List Char} (h : name ∈ steps path) :
    '/' ∉ name ∧ isIdle name = false := by
  obtain ⟨hmem, hidle⟩ := List.mem_filter.mp h
  exact ⟨Text.notMem_of_mem_splitOn hmem, by simpa using hidle⟩

/-- A tidy path leads where the path leads. -/
theorem steps_tidy (path : List Char) : steps (tidy path) = steps path :=
  steps_ofSteps path fun _ => of_mem_steps

/-- A name under a directory leads through the names of both, unless it begins at the root. -/
theorem steps_join (directory name : String) : steps (join directory name).toList =
    if isAbsolute name.toList then steps name.toList
    else steps directory.toList ++ steps name.toList := by
  rw [join, String.toList_ofList, steps_tidy]
  cases hdirectory : directory.toList with
  | nil => simp [steps, isIdle]
  | cons c cs =>
    rw [← hdirectory]
    cases habsolute : isAbsolute name.toList with
    | true => simp
    | false => simp [hdirectory, ← steps_append_slash]

example : steps (join "d//e/./" "rt").toList = ["d".toList, "e".toList, "rt".toList] := by
  decide +kernel

/-- The paths above a path lead through ever fewer of its names. -/
theorem steps_of_upwards (path : List Char) : (upwards path).map steps =
    (List.range ((steps path).length + 1)).reverse.map (steps path).take := by
  rw [upwards, List.map_map]
  refine List.map_congr_left fun count _ => ?_
  exact steps_ofSteps path fun name hmem => of_mem_steps (List.mem_of_mem_take hmem)

end Interpose.Path
