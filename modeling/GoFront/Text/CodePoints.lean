/-!
# Sets of code points

A set of code points is a list of closed ranges in increasing order. Membership stops at the first
range that lies above the code point, so the common characters at the front are found quickly.
-/

namespace GoFront
namespace Text

/-- A set of code points, as closed ranges in increasing order. -/
abbrev CodePoints := List (Nat × Nat)

namespace CodePoints

/-- Whether a code point lies in one of the ranges. -/
def contains : CodePoints -> Nat -> Bool
  | [], _ => false
  | (low, high) :: ranges, point =>
      if point < low then false
      else point ≤ high || contains ranges point

@[simp] theorem contains_nil (point : Nat) : contains [] point = false := rfl

end CodePoints
end Text
end GoFront
