/-!
# Code point ranges

A property of characters is given by the inclusive code point ranges that have it.
-/

namespace Bindery.Text

/-- Inclusive code point ranges, in increasing order. -/
abbrev Ranges := List (Nat × Nat)

/-- Whether the code point of the character lies in one of the ranges. -/
def Ranges.holds (ranges : Ranges) (c : Char) : Bool :=
  ranges.any fun (first, last) => first ≤ c.toNat && c.toNat ≤ last

end Bindery.Text
