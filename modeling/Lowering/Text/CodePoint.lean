/-!
# Lowering — ranges of code points

A property of characters is given by a list of closed ranges of code points; `Text.within` is
the characters that such a list covers.
-/

namespace Lowering.Text

/-- A closed range of code points, first and last. -/
abbrev CodePointRange := Nat × Nat

/-- Whether the character lies in one of the ranges. -/
def within (ranges : List CodePointRange) (c : Char) : Bool :=
  ranges.any fun (first, last) => first ≤ c.toNat && c.toNat ≤ last

end Lowering.Text
