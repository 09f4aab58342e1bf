import Excerpt.Token
/-!
# Block boundaries

Between two rows of different depth lie boundaries: one opening when the depth grows, by however
many levels, and one closing for each level that is left, the deepest first.
-/
namespace Excerpt

/-- The opening or closing of a level of indentation, on a line. -/
inductive Boundary where
  | opening (line depth : Nat)
  | closing (line depth : Nat)
  deriving DecidableEq, Repr

namespace Boundary

/-- The closings, on a line, of the `count` levels right above `depth`, the deepest first. -/
def closings (line depth : Nat) : Nat → List Boundary
  | 0 => []
  | count + 1 => closing line (depth + count + 1) :: closings line depth count

/-- The boundaries crossed, on a line, by going from one depth to another. -/
def between (line fromDepth toDepth : Nat) : List Boundary :=
  if fromDepth < toDepth then [opening line toDepth]
  else closings line toDepth (fromDepth - toDepth)

def ofRow (row : Row) : List Boundary :=
  between row.line.number row.previous row.depth

@[simp] theorem between_self (line depth : Nat) : between line depth depth = [] := by
  simp [between, closings]

end Boundary

end Excerpt
