/-!
# Character classes given as ranges

A class of characters that a standard defines by a long list is kept as a list of ranges of code
points, both ends included.
-/

set_option autoImplicit false

namespace NodeSchema
namespace Text

/-- The character lies in one of the ranges. -/
def inRanges (ranges : List (Nat × Nat)) (c : Char) : Bool :=
  ranges.any fun r => r.1 ≤ c.toNat && c.toNat ≤ r.2

theorem inRanges_iff {ranges : List (Nat × Nat)} {c : Char} :
    inRanges ranges c = true ↔ ∃ r ∈ ranges, r.1 ≤ c.toNat ∧ c.toNat ≤ r.2 := by
  simp [inRanges]

end Text
end NodeSchema
