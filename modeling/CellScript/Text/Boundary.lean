/-!
# Sets of code points

A set of code points is given by its boundaries in increasing order: membership flips at each of
them. So `[a, b]` holds the code points from `a` up to below `b`.
-/

namespace CellScript

/-- Whether a code point lies in the set with the given boundaries. -/
def within : List Nat → Nat → Bool
  | [], _ => false
  | b :: bs, n => if n < b then false else !within bs n

end CellScript
