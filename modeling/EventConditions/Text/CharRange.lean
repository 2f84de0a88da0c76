/-!
# Ranges of code points

A character property is written as ascending, disjoint ranges of code points, both ends included.
-/

namespace EventConditions.Text

/-- Whether the character's code point lies in one of the ranges. The ranges ascend, so the search
ends at the first one that starts behind the character. -/
def inRanges (c : Char) : List (Nat × Nat) → Bool
  | [] => false
  | (lo, hi) :: rest =>
    if c.toNat < lo then false else if c.toNat ≤ hi then true else inRanges c rest

end EventConditions.Text
