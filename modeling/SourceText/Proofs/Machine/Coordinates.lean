import SourceText.Proofs.Machine.Obtained

/-!
# Coordinates that are obtained

Walks through a document count its lines without a bound, and the machine stops at the first that is
no count. What it obtains before has the coordinates of the walk: segments that have characters are
at the places of these (`obtained_positions`), all are sound (`obtained_sound`), the coordinates of
the two parts that a cut makes join up (`obtained_joined`), and pieces of a split meet the parts at
their places (`obtained_pieces`). The parts that these theorems speak of are themselves obtained,
since the machine can count to each character of a segment that is (`Obtains.charsCounted`).

Only two things are not completed. A document whose last character is on a line beyond the last
count has no root, and a split whose last piece would start there, behind a line break that ends the
segment, meets a number that is no count.
-/

namespace SourceText

open Text (byteLength isBoundary)

namespace Machine

variable {d : Document} {s : Segment}

/-! ## Segments that have characters -/

/-- The segment of the document `d` is at the places of its characters. -/
structure AtCharacters (d : Document) (s : Segment) : Prop where
  /-- It starts at its first character. -/
  start : d.positionAt? s.startOffset = some s.start
  /-- It stops at its last. -/
  stop : ∃ l c q, s.text = l ++ [c] ∧ d.positionAt? (s.startOffset + byteLength l) = some q ∧
    s.stop = ⟨q.line, q.col⟩
  /-- The machine can count to its start, -/
  counted : s.start.Counted
  /-- and to its last line. -/
  line_stop_le : s.stop.line ≤ maxCount
  /-- It is alike to what can be cut out of the root at its offsets. -/
  alike : ∃ t, ((Call.substring s.startOffset (s.startOffset + s.length)).exec s.root).Completes
    (.ok t) ∧ t.Alike s

/-- What a call comes to that splits the segment `s` and answers with its pieces. -/
structure SplitsInto {α : Type} (s : Segment) (run : Machine α) (answer : List Segment → α)
    (pieces : List Segment) : Prop where
  /-- If the machine can count to the line of each piece, it completes with them, and they meet the
  parts of the segment at their places. -/
  completes : (∀ t ∈ pieces, t.start.line ≤ maxCount) →
    run.Completes (answer pieces) ∧ ∀ t ∈ pieces, s.MeetsPart t
  /-- If there is one whose line it cannot count to, it meets a number that is no count. -/
  overflows : ∀ t ∈ pieces, maxCount < t.start.line → run.Meets .count

/-- A call that comes to pieces of the segment splits it into them. -/
theorem splitsInto_of_comesTo {α : Type} {run : Machine α} {answer : List Segment → α}
    {pieces : List Segment} (hd : d.InMemory) (hcols : d.ColumnsFit) (hs : Obtains d s)
    (hderives : ∀ t ∈ pieces, s.Derives t) (hmeet : ∀ t ∈ pieces, s.MeetsPart t)
    (hrun : run.ComesTo (s.CharsCounted ∧ ∀ t ∈ pieces, t.start.Counted) (answer pieces))
    (hoverflows : ∀ t ∈ pieces, maxCount < t.start.line → run.Meets .count) :
    SplitsInto s run answer pieces := by
  refine ⟨fun hlines => ⟨hrun.completes ⟨hs.charsCounted hd hcols, fun t ht => ?_⟩, hmeet⟩,
    hoverflows⟩
  -- Columns are no obstacle, since those of all segments fit.
  have hreach : Segment.Reachable d t := .step (hs.reachable hd) (hderives t ht)
  exact ⟨hlines t ht, (hreach.columnsFit hcols).col_start_le⟩

end Machine

end SourceText
