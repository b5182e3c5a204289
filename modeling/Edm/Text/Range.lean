/-!
# Ranges of code points

A set of code points as a list of ranges, both ends included.
-/

namespace Edm

/-- A set of code points, given by the first and the last of each range. -/
abbrev Ranges := List (Nat × Nat)

namespace Ranges

/-- Whether one of the ranges holds a code point. -/
def holds (ranges : Ranges) (code : Nat) : Bool :=
  ranges.any fun (first, last) => first ≤ code && code ≤ last

theorem holds_iff {ranges : Ranges} {code : Nat} :
    ranges.holds code = true ↔ ∃ r ∈ ranges, r.1 ≤ code ∧ code ≤ r.2 := by
  simp [holds]

end Ranges

end Edm
