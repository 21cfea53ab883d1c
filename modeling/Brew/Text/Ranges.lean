/-!
# Tables of code point ranges

Properties of characters that the Unicode standard lists are kept as tables of closed ranges.
This module holds the one question asked of such a table.

## Main definitions

* `inRanges`: whether a code point lies in one of the ranges
-/

namespace Brew.Text

/-- Whether a code point lies in one of the closed ranges of a table. -/
def inRanges (ranges : List (Nat × Nat)) (n : Nat) : Bool :=
  ranges.any fun range => decide (range.1 ≤ n) && decide (n ≤ range.2)

end Brew.Text
