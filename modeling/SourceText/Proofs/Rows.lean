import Mathlib.Data.List.Nodup
import SourceText.Proofs.Split

/-!
# Lines are rows

Row `r` of a text is what a walk through the text meets on line `r`, without the line breaks
(`Position.row`). The lines that a segment is split into are its rows, from that of its start on,
each once and in order (`Segment.map_lines`): the first begins where the segment does, and any other
at the first column of its row.

The split goes by the breaks that a scan finds, and the rows by the lines that a walk counts. Both
are followed through the text break by break (`ReadsRows`), with the part of the current row that
has been passed kept apart from the rows before it.
-/

namespace SourceText

open Text (byteLength)
open LineBreak (scan spans)

namespace Position

/-- The characters on line `r` of a text that starts at `p`, without those of line breaks. -/
def row (p : Position) (r : Nat) : Text → Text
  | [] => []
  | c :: rest =>
    let behind := row (p.after c rest.head?) r rest
    if p.line = r ∧ c ≠ '\n' ∧ c ≠ '\r' then c :: behind else behind

/-- Where line `r` of a text begins that starts at `p`. -/
def lineStart (p : Position) (r : Nat) : Position := if r = p.line then p else ⟨r, 0⟩

/-- A row starts on the line that it has the number of. -/
@[simp] theorem line_lineStart (p : Position) (r : Nat) : (p.lineStart r).line = r := by
  unfold lineStart
  split_ifs with h
  · exact h.symm
  · rfl

/-! ## Rows by breaks -/

variable (p : Position) (r : Nat) (t : Text)

/-- A character that ends no line is on the line where the walk stands. -/
theorem row_other {c : Char} (hn : c ≠ '\n') (hr : c ≠ '\r') :
    p.row r (c :: t) = if p.line = r then c :: row ⟨p.line, p.col + 1⟩ r t
      else row ⟨p.line, p.col + 1⟩ r t := by
  have hafter : p.after c t.head? = ⟨p.line, p.col + 1⟩ := by
    simp [after, hn, hr]
  simp only [row, hafter]
  split_ifs with h h' h'
  · rfl
  · exact absurd h.1 h'
  · exact absurd ⟨h', hn, hr⟩ h
  · rfl

/-- Behind a line feed, a row is read on from the start of the next line. -/
theorem row_lineFeed : p.row r ('\n' :: t) = row ⟨p.line + 1, 0⟩ r t := by
  simp [row, after]

/-- Behind a carriage return by itself it is, too. -/
theorem row_return (ht : t.head? ≠ some '\n') :
    p.row r ('\r' :: t) = row ⟨p.line + 1, 0⟩ r t := by
  simp [row, after, ht]

/-- Between the two characters of a break the walk is still on the old line. -/
theorem row_pair : p.row r ('\r' :: '\n' :: t) = row ⟨p.line + 1, 0⟩ r t := by
  simp [row, after]

/-- A walk does not come back to the lines before the one where it stands. -/
theorem row_eq_nil (h : r < p.line) : p.row r t = [] := by
  induction t generalizing p with
  | nil => rfl
  | cons c t ih =>
    have hle : p.line ≤ (p.after c t.head?).line := p.line_le_advance [c] t.head?
    simp only [row]
    rw [if_neg (fun hline => by omega), ih _ (by omega)]

/-- No row has a line break in it. -/
theorem ne_of_mem_row {p : Position} {r : Nat} {t : Text} {c : Char} (h : c ∈ p.row r t) :
    c ≠ '\n' ∧ c ≠ '\r' := by
  induction t generalizing p with
  | nil => cases h
  | cons a t ih =>
    simp only [row] at h
    split_ifs at h with ha
    · rcases List.mem_cons.mp h with rfl | h
      · exact ha.2
      · exact ih h
    · exact ih h

end Position

namespace Segment

/-! ## Lines -/

/-- The rows of a text from line `line` on, where each begins and what it holds, if a walk through
the text goes on at `p` on an earlier line. -/
def rowsFrom (p : Position) (t : Text) (line count : Nat) : List (Position × Text) :=
  (List.range' line count).map fun r => (⟨r, 0⟩, p.row r t)

/-- Rows are counted from the first on. -/
theorem rowsFrom_succ (p : Position) (t : Text) (line count : Nat) :
    rowsFrom p t line (count + 1) = (⟨line, 0⟩, p.row line t) :: rowsFrom p t (line + 1) count := by
  rw [rowsFrom, List.range'_succ, List.map_cons]
  rfl

/-- Rows that the walk has still ahead of it are the same wherever it stands before them. -/
theorem rowsFrom_congr {p p' : Position} {t t' : Text} {line count : Nat}
    (h : ∀ r, line ≤ r → p.row r t = p'.row r t') :
    rowsFrom p t line count = rowsFrom p' t' line count := by
  refine List.map_congr_left fun r hr => ?_
  rw [h r (List.mem_range'_1.mp hr).1]

variable {s : Segment}

/-- Where a span of the segment starts, and what it holds. -/
def placed (s : Segment) (span : Span) : Position × Text :=
  (s.walkTo span.start, Text.slice s.text span.start span.stop)

/-- A piece that is found at the end of a walk is placed there, with the text between its two cuts.
-/
theorem placed_eq {l m r : Text} (htext : s.text = l ++ m ++ r) {p : Position}
    (hp : s.start.advance l (m ++ r).head? = p) :
    s.placed ⟨byteLength l, byteLength (l ++ m)⟩ = (p, m) := by
  have hslice : Text.slice s.text (byteLength l) (byteLength (l ++ m)) = m := by
    rw [htext, Text.slice_append]
  have hwalk : s.walkTo (byteLength l) = p := by
    rw [← hp]
    exact walkTo_eq (by rw [htext, List.append_assoc])
  simp only [placed, hslice, hwalk]

/-- If `t` is what is left of the segment behind `l` and `current`, the pieces between the breaks
that a scan finds from there on are the row that begins with `current`, and the rows below it. The
row begins at `p`, and the walk has come to `q`. -/
def ReadsRows (s : Segment) (t : Text) : Prop :=
  ∀ (l current : Text) (p q : Position), s.text = l ++ current ++ t →
    s.start.advance l (current ++ t).head? = p → s.start.advance (l ++ current) t.head? = q →
      q.line = p.line →
        (Split.between (byteLength l) (byteLength s.text)
            (scan (byteLength (l ++ current)) (Text.utf8 t))).map s.placed =
          (p, current ++ q.row p.line t) ::
            rowsFrom q t (p.line + 1) (scan (byteLength (l ++ current)) (Text.utf8 t)).length

/-- From the start, no rows have been read. -/
theorem readsRows_nil (s : Segment) : s.ReadsRows [] := by
  intro l current p q htext hp _ _
  have hplaced := placed_eq htext hp
  rw [List.append_nil] at htext
  simp only [Text.utf8, List.flatMap_nil, scan, Split.between, List.map_cons, List.map_nil,
    List.length_nil, rowsFrom, List.range'_zero, Position.row, List.append_nil]
  rw [htext, hplaced]

/-- A character that ends no line is one more of the current row. -/
theorem ReadsRows.other {c : Char} {t : Text} (hn : c ≠ '\n') (hr : c ≠ '\r')
    (h : s.ReadsRows t) : s.ReadsRows (c :: t) := by
  intro l current p q htext hp hq hline
  have hafter : q.after c t.head? = ⟨q.line, q.col + 1⟩ := by
    simp [Position.after, hn, hr]
  have hq' : s.start.advance (l ++ (current ++ [c])) t.head? = ⟨q.line, q.col + 1⟩ := by
    rw [← List.append_assoc, Position.advance_concat, ← hafter, ← hq]
    rfl
  have hlen : byteLength (l ++ (current ++ [c])) = byteLength (l ++ current) + c.utf8Size := by
    rw [← List.append_assoc, Text.byteLength_append]
    simp
  have hstep := h l (current ++ [c]) p ⟨q.line, q.col + 1⟩ (by rw [htext]; simp)
    (by rw [← hp]; simp) hq' hline
  have hbelow : ∀ count, rowsFrom q (c :: t) (p.line + 1) count =
      rowsFrom ⟨q.line, q.col + 1⟩ t (p.line + 1) count := fun count =>
    rowsFrom_congr fun r hle => by
      rw [Position.row_other _ _ _ hn hr, if_neg (by omega)]
  rw [hlen] at hstep
  rw [LineBreak.scan_other hn hr, hstep, hbelow, Position.row_other _ _ _ hn hr, if_pos hline,
    List.append_assoc]
  rfl

/-- A break `m` ends the current row, and the row below begins behind it. -/
theorem ReadsRows.afterBreak {m t : Text}
    (hscan : ∀ offset, scan offset (Text.utf8 (m ++ t)) =
      ⟨offset, offset + byteLength m⟩ :: scan (offset + byteLength m) (Text.utf8 t))
    (hwalk : ∀ q : Position, q.advance m t.head? = ⟨q.line + 1, 0⟩)
    (hrow : ∀ (q : Position) r, q.row r (m ++ t) = Position.row ⟨q.line + 1, 0⟩ r t)
    (h : s.ReadsRows t) : s.ReadsRows (m ++ t) := by
  intro l current p q htext hp hq hline
  have hq' : s.start.advance (l ++ current ++ m) t.head? = ⟨q.line + 1, 0⟩ := by
    have hhead : (m.head?.or t.head?) = (m ++ t).head? := List.head?_append.symm
    rw [Position.advance_append, hhead, hq, hwalk]
  have hbelow := h (l ++ current ++ m) [] ⟨q.line + 1, 0⟩ ⟨q.line + 1, 0⟩ (by rw [htext]; simp) hq'
    (by rwa [List.append_nil]) rfl
  have hnil : q.row p.line (m ++ t) = [] := by
    rw [hrow]
    exact Position.row_eq_nil _ _ _ (by simp only; omega)
  have hrows : ∀ count, rowsFrom q (m ++ t) (p.line + 1 + 1) count =
      rowsFrom ⟨q.line + 1, 0⟩ t (q.line + 1 + 1) count := by
    rw [← hline]
    exact fun count => rowsFrom_congr fun r _ => hrow q r
  rw [List.append_nil, List.nil_append, Text.byteLength_append (l ++ current)] at hbelow
  rw [hscan, Split.between, List.map_cons, hbelow, placed_eq htext hp, hnil, List.append_nil,
    List.length_cons, rowsFrom_succ, hrows, hrow, hline]

/-- The pieces between the breaks of a segment are its rows. -/
theorem readsRows (s : Segment) (t : Text) : s.ReadsRows t := by
  induction t using LineBreak.byBreaks with
  | nil => exact s.readsRows_nil
  | other c t hn hr ih => exact ih.other hn hr
  | lineFeed t ih =>
    exact ih.afterBreak (m := ['\n']) (fun n => LineBreak.scan_lineFeed n t) (fun _ => rfl)
      fun q r => q.row_lineFeed r t
  | pair t ih =>
    exact ih.afterBreak (m := ['\r', '\n']) (fun n => LineBreak.scan_pair n t) (fun _ => rfl)
      fun q r => q.row_pair r t
  | ret t ht ih =>
    have hwalk : ∀ q : Position, q.advance ['\r'] t.head? = ⟨q.line + 1, 0⟩ := fun q => by
      simp [Position.advance, Position.after, ht]
    exact ih.afterBreak (m := ['\r']) (fun n => LineBreak.scan_return ht n) hwalk
      fun q r => q.row_return r t ht

/-- Every break separates two lines. -/
theorem used_spans (text : Text) : Split.used .keepTrailing (spans text) = spans text := by
  refine List.filter_eq_self.mpr fun span hspan => ?_
  have hlt := LineBreak.lt_of_mem_scan hspan
  simp only [ne_eq, decide_not, Bool.not_eq_true', decide_eq_false_iff_not]
  rintro rfl
  exact Nat.lt_irrefl _ hlt

/-- The lines are what lies between the breaks. -/
theorem map_lines_eq_between (hs : s.WellPlaced) :
    s.lines.map (fun line => (line.start, line.text)) =
      (Split.between 0 (byteLength s.text) (spans s.text)).map s.placed := by
  have horder := LineBreak.spans_inOrder s.text
  by_cases hnone : spans s.text = []
  · -- There is no break, and the only line is the segment itself.
    have hplaced := s.placed_eq (l := []) (m := s.text) (r := []) (by simp) rfl
    rw [lines, splitAround_eq_self (by rw [used_spans, hnone]), hnone]
    simpa [Split.between] using hplaced.symm
  · have hpieces := Split.pieces_inOrder .keepTrailing horder
    rw [lines, splitAround_eq_map hs horder (by rwa [used_spans]), used_spans, List.map_map]
    refine List.map_congr_left fun p hp => ?_
    simp only [Function.comp_apply, text_piece hs (hpieces.inside hp)]
    rfl

/-- The lines of a segment are its rows, from that of its start on, each once and in order. -/
theorem map_lines (hs : s.WellPlaced) : s.lines.map (fun line => (line.start, line.text)) =
    (List.range' s.start.line ((spans s.text).length + 1)).map fun r =>
      (s.start.lineStart r, s.start.row r s.text) := by
  have hrows := s.readsRows s.text [] [] s.start s.start (by simp) rfl rfl rfl
  have hbelow : rowsFrom s.start s.text (s.start.line + 1) (spans s.text).length =
      (List.range' (s.start.line + 1) (spans s.text).length).map fun r =>
        (s.start.lineStart r, s.start.row r s.text) := by
    refine List.map_congr_left fun r hr => ?_
    have hle := (List.mem_range'_1.mp hr).1
    rw [Position.lineStart, if_neg (by omega)]
  rw [map_lines_eq_between hs, List.range'_succ, List.map_cons, ← hbelow, Position.lineStart,
    if_pos rfl]
  exact hrows

/-- There is one line more than there are breaks. -/
theorem length_lines (hs : s.WellPlaced) : s.lines.length = (spans s.text).length + 1 := by
  have hlen := congrArg List.length (map_lines hs)
  simpa using hlen

/-- The lines are on the rows from that of the start on. -/
theorem map_line_lines (hs : s.WellPlaced) :
    s.lines.map (·.start.line) = List.range' s.start.line ((spans s.text).length + 1) := by
  have hlines := congrArg (List.map fun placed => placed.1.line) (map_lines hs)
  simpa [List.map_map, Function.comp_def] using hlines

/-- A line begins where its row does, and holds what is on it. -/
theorem row_of_mem_lines (hs : s.WellPlaced) {line : Segment} (h : line ∈ s.lines) :
    line.start = s.start.lineStart line.start.line ∧
      line.text = s.start.row line.start.line s.text := by
  have hmem : (line.start, line.text) ∈ s.lines.map fun line => (line.start, line.text) :=
    List.mem_map_of_mem h
  rw [map_lines hs] at hmem
  obtain ⟨r, -, hr⟩ := List.mem_map.mp hmem
  obtain ⟨hstart, htext⟩ := Prod.mk.inj hr
  have hline : r = line.start.line := by
    rw [← hstart, Position.line_lineStart]
  rw [hline] at hstart htext
  exact ⟨hstart.symm, htext.symm⟩

/-- No two lines are on the same row. -/
theorem eq_of_mem_lines (hs : s.WellPlaced) {line line' : Segment} (h : line ∈ s.lines)
    (h' : line' ∈ s.lines) (hline : line.start.line = line'.start.line) : line = line' := by
  have hnodup : (s.lines.map (·.start.line)).Nodup := by
    rw [map_line_lines hs]
    exact List.nodup_range'
  exact List.inj_on_of_nodup_map hnodup h h' hline

end Segment

end SourceText
