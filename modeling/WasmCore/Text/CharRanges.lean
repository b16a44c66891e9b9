/-!
# Sets of characters

A property of characters is a table of code points, written as inclusive ranges in ascending order.
-/

namespace WasmCore.Text

/-- Code points as inclusive ranges. -/
abbrev CharRanges := Array (Nat × Nat)

/-- Whether a character lies in one of the ranges. -/
def CharRanges.covers (ranges : CharRanges) (c : Char) : Bool :=
  ranges.any fun (first, last) => decide (first ≤ c.toNat) && decide (c.toNat ≤ last)

end WasmCore.Text
