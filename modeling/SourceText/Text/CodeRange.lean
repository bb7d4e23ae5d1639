/-!
# Ranges of code points

The tables of the Unicode character database are lists of ranges. A character is in a table when
one of the ranges holds its code point.
-/

namespace SourceText

/-- The code points from `first` to `last`, both included. -/
structure CodeRange where
  first : Nat
  last : Nat
  deriving DecidableEq, Repr

/-- Whether the range holds the code point of `c`. -/
def CodeRange.contains (r : CodeRange) (c : Char) : Bool :=
  decide (r.first ≤ c.toNat) && decide (c.toNat ≤ r.last)

/-- Whether one of the ranges holds the code point of `c`. -/
def CodeRange.anyContains (table : List CodeRange) (c : Char) : Bool := table.any (·.contains c)

end SourceText
