import SourceText.Segment.Basic

/-!
# Locations

A location names a place for a person or another program: the source, and the line and the column
counted from one.
-/

namespace SourceText

/-- The greatest number that a location or a cursor holds. -/
def maxCount : Nat := Nat.pow 2 64 - 1

/-- The sum of two numbers, or the greatest one where that is less. -/
def saturatingAdd (a b : Nat) : Nat := min (a + b) maxCount

/-- A source, and a line and a column counted from one. -/
structure Location where
  /-- The name of the source. -/
  source : Text
  /-- The line, from one. -/
  line : Nat
  /-- The column, from one. -/
  column : Nat
  deriving DecidableEq, Repr

/-- The location as it is shown: the three parts with colons between them. -/
def Location.display (l : Location) : Text :=
  l.source ++ ':' :: Text.ofNat l.line ++ ':' :: Text.ofNat l.column

/-- The location of the first character. -/
def Segment.location (s : Segment) : Location :=
  ⟨s.source, saturatingAdd s.start.line 1, saturatingAdd s.start.col 1⟩

end SourceText
