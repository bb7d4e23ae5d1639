import SourceText.Text.Basic

/-!
# Offsets that do not fit

What can be wrong with an offset or a range that a caller gives for a text, and the wording of each
fault.
-/

namespace SourceText

/-- An offset or a range that does not fit a text of a certain length. -/
inductive IndexError where
  /-- No character starts, or none ends, at an offset that lies outside the text. -/
  | outOfBounds (index length : Nat)
  /-- A character straddles the offset. -/
  | notCharBoundary (index : Nat)
  /-- The range is reversed or reaches past the end. -/
  | invalidRange (start stop length : Nat)
  deriving DecidableEq, Repr

namespace IndexError

/-- The wording of the fault. -/
def message : IndexError → Text
  | outOfBounds index length =>
    "index ".toList ++ Text.ofNat index ++ " out of bounds for segment of length ".toList ++
      Text.ofNat length
  | notCharBoundary index =>
    "index ".toList ++ Text.ofNat index ++ " does not fall on a character boundary".toList
  | invalidRange start stop length =>
    "range ".toList ++ Text.ofNat start ++ "..".toList ++ Text.ofNat stop ++
      " out of bounds for segment of length ".toList ++ Text.ofNat length

end IndexError

end SourceText
