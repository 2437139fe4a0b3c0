/-! Classes of characters given by ascending, disjoint ranges of code points. -/

namespace LocalNames.Text

/-- Ranges `(low, high)` with both ends in the class. -/
structure CharClass where
  ranges : List (Nat × Nat)

/-- The look-up ends at the first range that starts above the code point. -/
def inRanges (n : Nat) : List (Nat × Nat) → Bool
  | [] => false
  | (low, high) :: rest => low ≤ n && (n ≤ high || inRanges n rest)

def CharClass.contains (cls : CharClass) (c : Char) : Bool :=
  inRanges c.toNat cls.ranges

end LocalNames.Text
