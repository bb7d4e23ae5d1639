import SourceText.Segment.Split
import SourceText.Text.Width

/-!
# Underlined context

A segment is shown in its context as the lines of its document that it touches, each followed by a
line that marks the columns it covers. Marks line up with the text above them: a wide character gets
as many marks as it has columns, and the padding before the first mark is as wide as the text above
it, tabs included.
-/

namespace SourceText

/-- How lines and marks are put together. -/
structure Layout where
  /-- What stands between any two lines. -/
  separator : Text := ['\n']
  marker : Char := '^'
  deriving DecidableEq, Repr, Inhabited

namespace Underline

/-- Padding for the first `n` columns of a line: as wide as its characters, a tab for a tab, and a
space for each column past its end. -/
def padding : Nat → Text → Text
  | 0, _ => []
  | n + 1, [] => ' ' :: padding n []
  | n + 1, c :: rest =>
    (if c = '\t' then ['\t'] else List.replicate (Width.display c) ' ') ++ padding n rest

/-- Marks for the first `n` columns of a line: as many as each character is wide, but no less than
one, and one for each column past its end. -/
def marks (marker : Char) : Nat → Text → Text
  | 0, _ => []
  | n + 1, [] => marker :: marks marker n []
  | n + 1, c :: rest => List.replicate (max (Width.display c) 1) marker ++ marks marker n rest

/-- The marks below a line, which is one of those that the segment touches. -/
def markLine (s : Segment) (marker : Char) (line : Segment) : Text :=
  let base := line.start.col
  let isFirst := line.start.line = s.start.line
  let indent := if isFirst then padding (s.start.col - base) line.text else []
  let firstCol := if isFirst then max s.start.col base else base
  let isPoint := s.start.line = s.stop.line ∧ s.stop.col < signedCol s.start.col
  let count :=
    if line.start.line < s.stop.line then base + line.text.length - firstCol
    else (s.stop.col + 1 - firstCol).toNat
  indent ++ if isPoint then [marker] else marks marker count (line.text.drop (firstCol - base))

end Underline

namespace Segment

/-- Whether the segment touches a line of its document: the line lies between those of its first and
last characters. -/
def touches (s line : Segment) : Bool :=
  decide (s.start.line ≤ line.start.line) && decide (line.start.line ≤ s.stop.line)

/-- A line of the document followed by the marks below it. -/
def underlinedLine (s : Segment) (layout : Layout) (line : Segment) : Text :=
  line.text ++ layout.separator ++ Underline.markLine s layout.marker line

/-- The lines that the segment touches, each with the columns that the segment covers marked. An
empty segment is marked at its place. -/
def underline (s : Segment) (layout : Layout := {}) : Text :=
  layout.separator.intercalate ((s.root.lines.filter s.touches).map (s.underlinedLine layout))

end Segment

end SourceText
