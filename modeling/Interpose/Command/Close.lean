/-!
# Close names

A name that is not known is compared with those that are. Two names are close when the parts
that they share make up at least three fifths of both. Shared parts are found greedily: the
longest common run first, then in the same way before it and after it.
-/

namespace Interpose.Command

/-- The length of the longest run with which two texts begin. -/
def sharedFront : List Char → List Char → Nat
  | a :: as, b :: bs => if a = b then sharedFront as bs + 1 else 0
  | _, _ => 0

/-- A common run of two texts. -/
structure CommonRun where
  /-- Where it begins in the first text. -/
  first : Nat
  /-- Where it begins in the second text. -/
  second : Nat
  /-- Its length. -/
  length : Nat
  deriving DecidableEq, Repr

/-- The better of two runs: the longer one, and of equally long ones the first. -/
def CommonRun.better (a b : CommonRun) : CommonRun := if a.length < b.length then b else a

/-- The longest common run of two texts; of several, the first in the first text, then in the
second. -/
def longestRun (as bs : List Char) : CommonRun :=
  let runs := (List.range as.length).flatMap fun i =>
    (List.range bs.length).map fun j => ⟨i, j, sharedFront (as.drop i) (bs.drop j)⟩
  runs.foldl CommonRun.better ⟨0, 0, 0⟩

/-- The number of characters in the parts that two texts share. Each part leaves shorter texts
on both sides, so the length of the first text is fuel enough. -/
def sharedLength : Nat → List Char → List Char → Nat
  | 0, _, _ => 0
  | fuel + 1, as, bs =>
    let run := longestRun as bs
    if run.length = 0 then 0
    else
      run.length + sharedLength fuel (as.take run.first) (bs.take run.second) +
        sharedLength fuel (as.drop (run.first + run.length)) (bs.drop (run.second + run.length))

/-- How much two texts share, as a part of their length. -/
structure Closeness where
  /-- Twice the number of shared characters. -/
  shared : Nat
  /-- The number of all characters. -/
  total : Nat
  deriving DecidableEq, Repr

/-- How much a known name shares with another one. -/
def closeness (known name : String) : Closeness :=
  let as := known.toList
  let bs := name.toList
  ⟨2 * sharedLength as.length as bs, as.length + bs.length⟩

/-- Whether names share enough to be close. -/
def Closeness.isClose (c : Closeness) : Bool := 3 * c.total ≤ 5 * c.shared

/-- Whether one pair of names does not share less than another. -/
def Closeness.atLeast (a b : Closeness) : Bool := b.shared * a.total ≤ a.shared * b.total

/-- The greatest number of close names. -/
def closeLimit : Nat := 3

/-- The known names that are closest to a name, in the order of their letters. -/
def closeNames (known : List String) (name : String) : List String :=
  let close := known.filter fun k => (closeness k name).isClose
  let best := (close.mergeSort fun a b => b ≤ a).mergeSort fun a b =>
    (closeness a name).atLeast (closeness b name)
  (best.take closeLimit).mergeSort fun a b => a ≤ b

example : closeNames ["--input", "--output", "--help"] "--inptu" = ["--input"] := by
  decide +kernel

end Interpose.Command
