/-!
# Sets of characters given by ranges

A property of characters is kept as an array of ranges of code points, in ascending order and
apart from each other. Whether a character has the property is found by halving the array.
-/

namespace Typeline

/-- A set of characters: ascending ranges of code points, both ends included. -/
structure RangeSet where
  /-- The ranges, in ascending order and apart from each other. -/
  ranges : Array (Nat × Nat)

namespace RangeSet

/-- Whether one of the ranges at the positions from `low` on and before `high` holds `n`. Every
step halves the positions that are left, so the number of ranges is more than enough for `bound`. -/
def search (ranges : Array (Nat × Nat)) (n : Nat) : (bound low high : Nat) → Bool
  | 0, _, _ => false
  | bound + 1, low, high =>
    if low < high then
      let middle := (low + high) / 2
      match ranges[middle]? with
      | none => false
      | some (first, last) =>
        if n < first then search ranges n bound low middle
        else if last < n then search ranges n bound (middle + 1) high
        else true
    else false

/-- Whether a character is in the set. -/
def contains (s : RangeSet) (c : Char) : Bool :=
  search s.ranges c.toNat s.ranges.size 0 s.ranges.size

end RangeSet

end Typeline
