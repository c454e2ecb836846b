/-!
# Sets of code points — stored as the places where membership flips

A property of characters that holds on many short runs is written as the increasing list of
code points at which it starts or stops holding. A code point has the property exactly when
an odd number of these boundaries lie at or below it, so one binary search decides it.

* **`RangeSet.contains`** — membership of a code point.
* **`RangeSet.Increasing`** — the boundaries are in strictly increasing order.
-/

namespace SegmentWire.Text

/-- A set of code points: the boundaries at which membership flips, in increasing order,
    starting outside the set. -/
structure RangeSet where
  boundaries : Array Nat

namespace RangeSet

/-- How many boundaries lie at or below `point`, given that all before `low` do and none
    from `high` on does. -/
def rank (set : RangeSet) (point low high : Nat) : Nat :=
  if h : low < high then
    let middle := (low + high) / 2
    if set.boundaries.getD middle 0 ≤ point then set.rank point (middle + 1) high
    else set.rank point low middle
  else low
termination_by high - low

/-- Membership: an odd number of boundaries lie at or below the code point. -/
def contains (set : RangeSet) (c : Char) : Bool :=
  set.rank c.toNat 0 set.boundaries.size % 2 == 1

/-- The boundaries are in strictly increasing order, as the binary search needs. -/
def Increasing (set : RangeSet) : Prop :=
  ∀ step ∈ set.boundaries.toList.zip set.boundaries.toList.tail, step.1 < step.2

instance (set : RangeSet) : Decidable set.Increasing :=
  inferInstanceAs (Decidable (∀ step ∈ List.zip _ _, _))

end RangeSet

end SegmentWire.Text
