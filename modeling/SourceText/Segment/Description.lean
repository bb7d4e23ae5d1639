import SourceText.Segment.Basic
import SourceText.Text.Quoted

/-!
# Segments described

A segment written out with all that tells it from others, for a person who looks for a fault: on one
line, or spread over many with one value to a line.
-/

namespace SourceText.Segment

/-- The description on one line. -/
def describe (s : Segment) : Text :=
  "Segment \x7b text: ".toList ++ Quoted.quote s.text ++
  ", source: ".toList ++ Quoted.quote s.source ++
  ", source_index: ".toList ++ offset ++
  ", start: (".toList ++ Text.ofNat s.start.line ++ ", ".toList ++ Text.ofNat s.start.col ++
  "), end: (".toList ++ Text.ofNat s.stop.line ++ ", ".toList ++ Text.ofInt s.stop.col ++
  ") \x7d".toList
where
  /-- The offset in the document, if there is one. -/
  offset : Text :=
    match s.sourceOffset? with
    | some n => "Some(".toList ++ Text.ofNat n ++ [')']
    | none => "None".toList

/-- Lines between an opening and a closing one. Each part is indented and ends with a comma. -/
def block (opening closing : Text) (parts : List (List Text)) : List Text :=
  let close := fun lines : List Text =>
    match lines.getLast? with
    | some last => lines.dropLast ++ [last ++ [',']]
    | none => []
  let indent := fun line : Text => "    ".toList ++ line
  opening :: (parts.flatMap fun lines => (close lines).map indent) ++ [closing]

/-- The lines of the spread description. -/
def describedLines (s : Segment) : List Text :=
  let pair := fun (name : String) (first second : Text) =>
    block (name.toList ++ ": (".toList) [')'] [[first], [second]]
  let offset :=
    match s.sourceOffset? with
    | some n => block "source_index: Some(".toList [')'] [[Text.ofNat n]]
    | none => ["source_index: None".toList]
  block "Segment \x7b".toList ['\x7d'] [
    ["text: ".toList ++ Quoted.quote s.text],
    ["source: ".toList ++ Quoted.quote s.source],
    offset,
    pair "start" (Text.ofNat s.start.line) (Text.ofNat s.start.col),
    pair "end" (Text.ofNat s.stop.line) (Text.ofInt s.stop.col)]

/-- The description spread over lines. -/
def describeSpread (s : Segment) : Text := ['\n'].intercalate s.describedLines

end SourceText.Segment
