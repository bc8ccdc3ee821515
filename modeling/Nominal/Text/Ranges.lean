/-! Classes of characters, given as ranges of code points in ascending order. -/

namespace Nominal

/-- Ranges of code points, both ends included, in ascending order and apart from each other. -/
abbrev Ranges := List (Nat × Nat)

/-- Whether one of the ranges holds a code point. The search ends at the first range that lies above it. -/
def Ranges.holds : Ranges → Nat → Bool
  | [], _ => false
  | (low, high) :: rest, n => if n < low then false else if n ≤ high then true else holds rest n

end Nominal
