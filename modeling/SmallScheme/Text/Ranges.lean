/-!
# Ranges of characters

A property of characters is listed as closed ranges of code points. A table of them is kept in
ascending order, for those who read it; look-up does not depend on the order.
-/

namespace SmallScheme.Text

/-- Closed ranges of code points. -/
abbrev Ranges := Array (Nat × Nat)

/-- Whether a character lies in one of the ranges. -/
def Ranges.contains (ranges : Ranges) (c : Char) : Bool :=
  ranges.any fun range => range.1 ≤ c.toNat && c.toNat ≤ range.2

end SmallScheme.Text
