/-!
# Tables of character ranges

A property of characters is a table of inclusive ranges of code points.
-/

namespace Stackscript.Text

/-- A property of characters, as a list of inclusive ranges of code points. -/
abbrev Ranges := List (Nat × Nat)

/-- The code point of `c` lies in one of the ranges. -/
def Ranges.has (table : Ranges) (c : Char) : Bool :=
  table.any fun (first, last) => decide (first ≤ c.toNat ∧ c.toNat ≤ last)

end Stackscript.Text
