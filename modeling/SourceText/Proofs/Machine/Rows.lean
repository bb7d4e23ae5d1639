import SourceText.Proofs.Lines
import SourceText.Proofs.Machine.Obtained
import SourceText.Proofs.Marks

/-!
# Rows on the machine

The rows of a segment are numbered from the line of its start on, and the last of them is behind its
last line break. If that is a count, the machine finds the lines of the segment (`lines_completes`);
if it is none, it meets it (`lines_meets_of_spans`). So what a call for the lines of a segment
completes with are its rows (`obtained_lines`). A segment is shown on rows of its document, which
are found first: either all of them can be counted, and each that the segment touches is shown, with
marks below its characters (`obtained_underline`, `obtained_marks`), or the call is not completed.
-/

namespace SourceText

namespace Machine

variable {d : Document} {s : Segment}

/-! ## Lines -/

/-- The lines are found if the machine can count to the last of them, and to the column behind the
text were it all on one line. -/
theorem lines_completes (hs : s.InMemory)
    (hline : s.start.line + (LineBreak.spans s.text).length ≤ maxCount)
    (hcol : s.start.col + s.text.length ≤ maxCount) : (lines s).Completes s.lines := by
  have hfits : Fits s.text s.start := fits_of_length_le hs.byteLength_le hline hcol
  refine (lines_comesTo hs).completes ⟨hfits.charsCounted, fun t ht => ?_⟩
  obtain ⟨hstart, -⟩ := Segment.row_of_mem_lines hs.placed ht
  have hmem : t.start.line ∈ s.lines.map (·.start.line) := List.mem_map_of_mem ht
  rw [Segment.map_line_lines hs.placed, List.mem_range'_1] at hmem
  refine ⟨by omega, ?_⟩
  -- A line begins at the first column, unless it is where the segment starts.
  rw [hstart, Position.lineStart]
  split_ifs
  · omega
  · exact Nat.zero_le _

/-- If the last of them is on a line that is no count, that is met. -/
theorem lines_meets_of_spans (hs : s.InMemory) (hstart : s.start.line ≤ maxCount)
    (hline : maxCount < s.start.line + (LineBreak.spans s.text).length) :
    (lines s).Meets .count := by
  have hlast : s.start.line + (LineBreak.spans s.text).length ∈ s.lines.map (·.start.line) := by
    rw [Segment.map_line_lines hs.placed, List.mem_range'_1]
    omega
  obtain ⟨t, ht, hrow⟩ := List.mem_map.mp hlast
  exact lines_meets hs hstart ht (by omega)

/-- A segment is not shown if the last row of its document is on a line that is no count. -/
theorem underline_meets (hs : s.InMemory) (layout : Layout)
    (hstart : s.document.start.line ≤ maxCount)
    (hline : maxCount < s.document.start.line + (LineBreak.spans s.document.text).length) :
    (underline s layout).Meets .count := by
  refine (lines_meets_of_spans hs.root hstart ?_).bind
  rw [Segment.root, Segment.text_ofDocument]
  exact hline

/-- The context of a segment that is obtained is found exactly if the machine can count to the last
row of its document. -/
theorem Obtains.underline (hd : d.InMemory) (hcols : d.ColumnsFit) (hs : Obtains d s)
    (layout : Layout) :
    (d.start.line + (LineBreak.spans d.text).length ≤ maxCount →
      ((Call.underline layout).exec s).Completes (s.underline layout)) ∧
    (maxCount < d.start.line + (LineBreak.spans d.text).length →
      ((Call.underline layout).exec s).Meets .count) := by
  have hmemory := hs.inMemory hd
  obtain ⟨-, hdocument⟩ := (hs.reachable hd).wellPlaced
  have hrun := underline_comesTo hmemory layout
  have hmeets := underline_meets hmemory layout
  rw [hdocument] at hrun hmeets
  exact ⟨fun hline => hrun.completes (fits_of_columnsFit hd hcols hline), hmeets hd.start.line⟩

end Machine

end SourceText
