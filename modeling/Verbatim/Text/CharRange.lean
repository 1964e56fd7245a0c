/-! Sets of characters given as lists of closed ranges of code points. -/

namespace Verbatim.Text

def inRanges (ranges : List (Nat × Nat)) (c : Char) : Bool :=
  ranges.any fun range => range.1 ≤ c.toNat && c.toNat ≤ range.2

end Verbatim.Text
