/-!
# Sets of code points

The classes of characters are tables: inclusive ranges of code points, in
ascending order and apart from one another.
-/

namespace RequiredKeys

abbrev CodePoints := List (Nat × Nat)

namespace CodePoints

/-- Whether a character stands in one of the ranges. -/
def hasChar (points : CodePoints) (c : Char) : Bool :=
  points.any (fun (first, last) => first ≤ c.toNat && c.toNat ≤ last)

end CodePoints
end RequiredKeys
