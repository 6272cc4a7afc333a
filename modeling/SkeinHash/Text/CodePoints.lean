/-!
# Sets of code points

A property of characters, as the list of its ranges of code points. The list is in ascending
order, so a search from its low end stops at the first range beyond the character it looks for.
-/

namespace SkeinHash.Text

/-- Whether ranges, ends included, are in ascending order and hold no code point below a limit.
    No range is empty and no two of them touch. -/
def ascendingFrom (limit : Nat) : List (Nat × Nat) → Bool
  | [] => true
  | (first, last) :: rest => limit ≤ first && first ≤ last && ascendingFrom (last + 2) rest

/-- A set of code points: its ranges, ends included, in ascending order. -/
structure CodePoints where
  ranges : List (Nat × Nat)
  ascending : ascendingFrom 0 ranges = true

/-- Looks for a code point in ranges in ascending order. -/
def inRanges (codePoint : Nat) : List (Nat × Nat) → Bool
  | [] => false
  | (first, last) :: rest =>
    first ≤ codePoint && (codePoint ≤ last || inRanges codePoint rest)

namespace CodePoints

/-- Whether a character is in the set. -/
def contains (set : CodePoints) (c : Char) : Bool := inRanges c.toNat set.ranges

/-- How many code points the set has. -/
def size (set : CodePoints) : Nat :=
  set.ranges.foldl (fun n (first, last) => n + (last + 1 - first)) 0

end CodePoints

end SkeinHash.Text
