import SourceText.Proofs.Coordinates
import SourceText.Proofs.Rows
import SourceText.Segment.Underline

/-!
# The rows of underlined context

The context of a segment is a block for each row from its first to its last, in order, of the line
of the document on that row and the marks below it (`Reachable.underline_rows`). The lines of a
document are numbered row by row (`map_line_lines`), so those that a segment touches are a run of
them (`filter_range'`), and the run is whole because a segment starts and stops on rows that the
document has (`Reachable.sound`).

Even between separators that are empty something is seen: below the last row there is a mark, at the
place of a segment that is empty, and up to the last character of any other (`markLine_ne_nil`).

Rows are numbered without a bound. A machine shows a segment if it can count to the last row of the
document (`Proofs.Machine.Rows`).
-/

namespace SourceText

/-- Of a run of numbers, those between two of them are a run. -/
theorem filter_range' {first count low high : Nat} (hlow : first ≤ low) (hle : low ≤ high)
    (hhigh : high < first + count) :
    (List.range' first count).filter (fun r => decide (low ≤ r) && decide (r ≤ high)) =
      List.range' low (high + 1 - low) := by
  obtain ⟨before, rfl⟩ : ∃ before, low = first + before := ⟨low - first, by omega⟩
  obtain ⟨last, rfl⟩ : ∃ last, high = first + before + last := ⟨high - (first + before), by omega⟩
  obtain ⟨after, rfl⟩ : ∃ after, count = before + (last + 1 + after) :=
    ⟨count - (before + (last + 1)), by omega⟩
  have hlength : first + before + last + 1 - (first + before) = last + 1 := by omega
  -- The run is in three parts, of which the one in the middle is kept.
  rw [← List.range'_append_1, ← List.range'_append_1, List.filter_append, List.filter_append,
    List.filter_eq_nil_iff.mpr, List.filter_eq_self.mpr, List.filter_eq_nil_iff.mpr, hlength]
  · simp
  · intro r hr
    have hmem := List.mem_range'_1.mp hr
    simp only [Bool.and_eq_true, decide_eq_true_eq]
    omega
  · intro r hr
    have hmem := List.mem_range'_1.mp hr
    simp only [Bool.and_eq_true, decide_eq_true_eq]
    omega
  · intro r hr
    have hmem := List.mem_range'_1.mp hr
    simp only [Bool.and_eq_true, decide_eq_true_eq]
    omega

/-- Texts that are put together are seen if one of them is. -/
theorem intercalate_ne_nil {separator text : Text} {texts : List Text} (h : text ∈ texts)
    (hne : text ≠ []) : separator.intercalate texts ≠ [] := by
  induction texts with
  | nil => simp at h
  | cons first texts ih =>
    cases texts with
    | nil =>
      obtain rfl := List.mem_singleton.mp h
      rwa [List.intercalate_singleton]
    | cons second texts =>
      rw [List.intercalate_cons_cons]
      rcases List.mem_cons.mp h with rfl | h
      · simp [hne]
      · have hrest := ih h
        simp [hrest]

namespace Underline

/-- A column is marked at least once. -/
theorem marks_succ_ne_nil (marker : Char) (n : Nat) (line : Text) :
    marks marker (n + 1) line ≠ [] := by
  cases line with
  | nil => exact List.cons_ne_nil _ _
  | cons c line =>
    have hpos : max (Width.display c) 1 ≠ 0 := by omega
    simp [marks, hpos]

end Underline

namespace Segment

variable {d : Document} {s : Segment}

/-- The line of the document `d` on row `r`: it is one of the document's lines and the only one on
the row, and begins where the row does and holds what is on it. -/
structure IsRow (d : Document) (r : Nat) (line : Segment) : Prop where
  /-- It is a line. -/
  mem : line ∈ (ofDocument d).lines
  /-- It begins where the row does. -/
  start : line.start = d.start.lineStart r
  /-- It holds what is on the row. -/
  text : line.text = d.start.row r d.text
  /-- No other line is on the row. -/
  unique : ∀ other ∈ (ofDocument d).lines, other.start.line = r → other = line

/-- A line of the document is the line on its row. -/
theorem isRow_of_mem {line : Segment} (h : line ∈ (ofDocument d).lines) :
    IsRow d line.start.line line := by
  have hplaced := wellPlaced_ofDocument d
  obtain ⟨hstart, htext⟩ := row_of_mem_lines hplaced h
  rw [text_ofDocument] at htext
  exact ⟨h, hstart, htext, fun other hother hline => eq_of_mem_lines hplaced hother h hline⟩

/-- The lines that a segment touches are on the rows from its start to its stop. -/
theorem map_line_touched (hs : s.Sound d) :
    (s.root.lines.filter s.touches).map (·.start.line) =
      List.range' s.start.line (s.stop.line + 1 - s.start.line) := by
  have hroot : s.root = ofDocument d := by rw [root, hs.document]
  have hlines := map_line_lines (wellPlaced_ofDocument d)
  rw [text_ofDocument] at hlines
  have hstop : s.stop.line < d.start.line + ((LineBreak.spans d.text).length + 1) :=
    Nat.lt_succ_of_le hs.stop_le
  have hfilter := filter_range' hs.line_le hs.start_le_stop hstop
  have htouches : s.touches = (fun r => decide (s.start.line ≤ r) && decide (r ≤ s.stop.line)) ∘
      fun line => line.start.line := rfl
  rw [hroot, htouches, ← List.filter_map, hlines]
  exact hfilter

/-- There is one for each of these rows. -/
theorem length_touched (hs : s.Sound d) :
    (s.root.lines.filter s.touches).length = s.stop.line + 1 - s.start.line := by
  have hlen := congrArg List.length (map_line_touched hs)
  simpa using hlen

/-- They come in the order of the rows. -/
theorem isRow_of_touched (hs : s.Sound d) {k : Nat} {row : Segment}
    (hk : (s.root.lines.filter s.touches)[k]? = some row) : IsRow d (s.start.line + k) row := by
  have hmem : row ∈ (ofDocument d).lines := by
    have h := List.mem_of_mem_filter (List.mem_of_getElem? hk)
    rwa [Segment.root, hs.document] at h
  have hline : row.start.line = s.start.line + k := by
    obtain ⟨hlt, -⟩ := List.getElem?_eq_some_iff.mp hk
    rw [length_touched hs] at hlt
    have hget := congrArg (·[k]?) (map_line_touched hs)
    simp only [List.getElem?_map, hk, Option.map_some, List.getElem?_range' hlt] at hget
    simpa using Option.some.inj hget
  rw [← hline]
  exact isRow_of_mem hmem

/-- The row of a segment's start does not begin behind the start. -/
theorem lineStart_col_le {before after : Text} (h : s.Aligned before after) (hne : s.text ≠ []) :
    (s.document.start.lineStart s.start.line).col ≤ s.start.col := by
  unfold Position.lineStart
  split_ifs with hline
  · rw [h.start hne] at hline ⊢
    rw [Position.col_advance_of_line_eq hline]
    exact Nat.le_add_right _ _
  · exact Nat.zero_le _

/-- The first column that is marked in the last row of a segment is not behind its last character,
if it has one. -/
theorem firstCol_le_stop {before after : Text} (h : s.Aligned before after)
    (hcols : s.document.ColumnsFit) {line : Segment}
    (hline : line.start = s.document.start.lineStart s.stop.line)
    (hpoint : ¬ (s.start.line = s.stop.line ∧ s.stop.col < signedCol s.start.col)) :
    ((if s.stop.line = s.start.line then max s.start.col line.start.col
      else line.start.col : Nat) : Int) ≤ s.stop.col := by
  obtain ⟨hle, hcol⟩ := h.start_le_stop hcols
  have hfit := signedCol_of_le (h.col_le hcols)
  split_ifs with hsame
  · -- The segment is on one row, and is not empty.
    have hstop : signedCol s.start.col ≤ s.stop.col := by
      by_contra hlt
      exact hpoint ⟨hsame.symm, by omega⟩
    have hne : s.text ≠ [] := by
      intro hnil
      rw [h.lies.stop, hnil, EndPosition.of_nil] at hstop
      simp only at hstop
      omega
    have hbase := lineStart_col_le h hne
    rw [← hsame, ← hline] at hbase
    omega
  · -- The last row is below that of the start, and begins at its first column.
    have hstart := h.line_le
    have hzero : line.start.col = 0 := by
      rw [hline, Position.lineStart, if_neg (by omega)]
    have hstop := hcol (by omega)
    omega

/-- Below the last row of a segment there is a mark. -/
theorem markLine_ne_nil {before after : Text} (h : s.Aligned before after)
    (hcols : s.document.ColumnsFit) {line : Segment}
    (hline : line.start = s.document.start.lineStart s.stop.line) (marker : Char) :
    Underline.markLine s marker line ≠ [] := by
  have hlast : line.start.line = s.stop.line := by rw [hline, Position.line_lineStart]
  unfold Underline.markLine
  simp only [hlast, Nat.lt_irrefl, if_false, ne_eq, List.append_eq_nil_iff, not_and]
  intro _
  by_cases hpoint : s.start.line = s.stop.line ∧ s.stop.col < signedCol s.start.col
  · rw [if_pos hpoint]
    exact List.cons_ne_nil _ _
  · have hfirst := firstCol_le_stop h hcols hline hpoint
    rw [if_neg hpoint]
    generalize (if s.stop.line = s.start.line then max s.start.col line.start.col
      else line.start.col : Nat) = first at hfirst ⊢
    obtain ⟨n, hn⟩ : ∃ n, (s.stop.col + 1 - (first : Int)).toNat = n + 1 :=
      ⟨(s.stop.col - first).toNat, by omega⟩
    rw [hn]
    exact Underline.marks_succ_ne_nil marker n _

/-- The context of a segment shows every row from that of its start to that of its stop, once and in
order, each with a line of marks below it. There is always something to see. -/
theorem Reachable.underline_rows (hs : Reachable d s) (hcols : d.ColumnsFit) (layout : Layout) :
    ∃ rows : List Segment, rows.length + s.start.line = s.stop.line + 1 ∧
      (∀ k row, rows[k]? = some row → IsRow d (s.start.line + k) row) ∧
      s.underline layout = layout.separator.intercalate (rows.map fun row =>
        row.text ++ layout.separator ++ Underline.markLine s layout.marker row) ∧
      s.underline layout ≠ [] := by
  have hsound := hs.sound hcols
  have hle := hsound.start_le_stop
  have hlength := length_touched hsound
  refine ⟨_, by omega, fun k row hk => isRow_of_touched hsound hk, rfl, ?_⟩
  -- Something is seen in the block of the last row.
  obtain ⟨last, hlast⟩ : ∃ last,
      (s.root.lines.filter s.touches)[s.stop.line - s.start.line]? = some last :=
    ⟨_, List.getElem?_eq_getElem (by omega)⟩
  have hstart := (isRow_of_touched hsound hlast).start
  rw [Nat.add_sub_cancel' hle] at hstart
  obtain ⟨rfl, before, after, h⟩ := hs.aligned hcols
  have hmarks := markLine_ne_nil h hcols hstart layout.marker
  refine intercalate_ne_nil (List.mem_map_of_mem (List.mem_of_getElem? hlast)) ?_
  simp [underlinedLine, hmarks]

end Segment

end SourceText
