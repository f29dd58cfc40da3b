/-!
# Character classes given by ranges

A class of characters is a table of closed ranges of code points. Membership is decided by
walking the table, so a class is plain data and its members can be computed.
-/

namespace Interpose.Text

/-- A class of characters as the closed ranges of code points that it consists of. -/
abbrev Ranges := List (Nat × Nat)

/-- A character belongs to a class when its code point lies in one of the ranges. -/
def Ranges.contains (table : Ranges) (c : Char) : Bool :=
  table.any fun range => range.1 ≤ c.toNat && c.toNat ≤ range.2

theorem Ranges.contains_iff (table : Ranges) (c : Char) :
    table.contains c = true ↔ ∃ range ∈ table, range.1 ≤ c.toNat ∧ c.toNat ≤ range.2 := by
  simp [Ranges.contains]

end Interpose.Text
