import SourceText.Location
import SourceText.Segment.Underline

/-!
# Parse errors

What went wrong in reading a text, and where: a message and the segment it is about, and sometimes
the failure behind it. Shown in full, the message and the location stand above the segment
underlined in its context.
-/

namespace SourceText

/-- A failure at a segment. -/
structure ParseError where
  /-- What went wrong. -/
  message : Text
  /-- Where it did. -/
  segment : Segment
  /-- The wording of the failure behind it. -/
  cause : Option Text := none
  deriving DecidableEq, Repr

namespace ParseError

/-- The location of the segment. -/
def location (e : ParseError) : Location := e.segment.location

/-- The error in full, in a certain layout. -/
def render (e : ParseError) (layout : Layout := {}) : Text :=
  e.message ++ " (in ".toList ++ e.location.source ++ ", line ".toList ++
    Text.ofNat e.location.line ++ ", column ".toList ++ Text.ofNat e.location.column ++
    "):".toList ++ layout.separator ++ e.segment.underline layout

end ParseError

end SourceText
