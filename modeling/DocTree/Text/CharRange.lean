/-!
# Sets of characters

A set of characters given by ranges of code points.
-/

namespace DocTree

/-- Whether the character lies in one of the ranges, whose ends are included. -/
def Text.inRanges (ranges : List (Nat × Nat)) (c : Char) : Bool :=
  ranges.any fun (first, last) => first ≤ c.toNat && c.toNat ≤ last

end DocTree
