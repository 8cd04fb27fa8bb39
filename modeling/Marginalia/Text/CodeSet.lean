/-! # Sets of code points

A set of code points is written as the ascending list of the points at which membership changes,
so that `#[a, b, c, d]` holds the points from `a` below `b` and from `c` below `d`.  A point is a
member when an odd number of bounds lies at or below it.
-/
namespace Marginalia

/-- The number of entries of an ascending array that are at most `n`, searched between the
indices `low` and `high`. -/
def bisect (bounds : Array Nat) (n low high : Nat) : Nat :=
  if low < high then
    let mid := (low + high) / 2
    if bounds.getD mid 0 ≤ n then bisect bounds n (mid + 1) high else bisect bounds n low mid
  else low
termination_by high - low

/-- A set of code points, given by the ascending points at which membership changes. -/
structure CodeSet where
  bounds : Array Nat

/-- Whether the character belongs to the set. -/
def CodeSet.contains (set : CodeSet) (c : Char) : Bool :=
  bisect set.bounds c.toNat 0 set.bounds.size % 2 == 1

end Marginalia
