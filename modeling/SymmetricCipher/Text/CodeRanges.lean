/-!
# Ranges of code points

A property of characters is given by a table of ranges of code points.
-/

namespace SymmetricCipher

/-- Ranges of code points, each by its first and its last one. -/
abbrev CodeRanges := List (Nat × Nat)

namespace CodeRanges

/-- Whether a character is in one of the ranges. -/
def contains (ranges : CodeRanges) (c : Char) : Bool :=
  ranges.any fun range => range.1 ≤ c.toNat && c.toNat ≤ range.2

end CodeRanges

end SymmetricCipher
