/-!
# Positions

Indices into a list that count from either end.
-/

namespace Interpose

/-- The position that an index names among `length` items. A negative index counts from the end. -/
def position? (length : Nat) (index : Int) : Option Nat :=
  if 0 ≤ index ∧ index < length then some index.toNat
  else if index < 0 ∧ 0 ≤ index + length then some (index + length).toNat
  else none

end Interpose
