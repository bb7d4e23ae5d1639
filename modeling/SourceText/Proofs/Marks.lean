import SourceText.Proofs.Cells
import SourceText.Proofs.Underline

/-!
# Marks under the characters of a segment

The marks below a line are drawn by columns, from the start of the segment or of the line up to the
signed column where the segment ends. That these are the columns of the segment's own characters is
read off the characters of the document (`Segment.cellsOn`). A line cuts in three at a segment: the
characters before it, its own, and those behind it, which together are what the line shows and the
break that ends it (`Segment.CutsLine`). The column of the segment's start counts the first part and
that of its end the first two (`Aligned.start_col_eq`, `Aligned.stop_col_eq`), so that as many
columns are padded and marked as there are characters to stand for (`Aligned.count_eq`).

Both padding and marks are one group of signs for each character and a blank for each column past
the end of the line (`Underline.fill`). There only characters of the break can stand, and each of
them has one column (`Underline.fill_eq_flatMap`). So padding is as wide as all that comes before
the segment, wherever tabs lead to (`Underline.across_pad`).

As in the rest of underlining, rows are numbered without a bound, and `Proofs.Machine.Rows` says
when a machine completes it.
-/

namespace SourceText

open Text (byteLength)

/-! ## Widths -/

namespace Width

/-- The column of a display that a text reaches which is shown from column `x` on, where `tab` says
to which column a tab leads. -/
def across (tab : Nat → Nat) (x : Nat) : Text → Nat
  | [] => x
  | c :: rest => across tab (if c = '\t' then tab x else x + display c) rest

variable (tab : Nat → Nat) (x : Nat)

/-- A display goes on where it has come to. -/
theorem across_append (l m : Text) : across tab x (l ++ m) = across tab (across tab x l) m := by
  induction l generalizing x with
  | nil => rfl
  | cons c l ih => exact ih _

/-- Blanks are as wide as there are of them. -/
theorem across_spaces (n : Nat) : across tab x (List.replicate n ' ') = x + n := by
  induction n generalizing x with
  | zero => rfl
  | succ n ih =>
    have hspace : display ' ' = 1 := by decide
    rw [List.replicate_succ, across, if_neg (by decide), hspace, ih]
    omega

/-- A control character is given one column. -/
theorem display_of_isBreak {cell : Cell} (h : cell.isBreak = true) : display cell.char = 1 := by
  rcases (by simpa [Cell.isBreak] using h : cell.char = '\n' ∨ cell.char = '\r') with hc | hc
  all_goals
    rw [hc]
    decide

end Width

namespace Underline

/-- Padding as wide as a character. -/
def pad (c : Char) : Text := if c = '\t' then ['\t'] else List.replicate (Width.display c) ' '

/-- Marks for a character. -/
def mark (marker c : Char) : Text := List.replicate (max 1 (Width.display c)) marker

/-- The first `n` columns of a line: what stands for each of its characters, and a blank for each
column past its end. -/
def fill (group : Char → Text) (blank : Char) (n : Nat) (line : Text) : Text :=
  (line.take n).flatMap group ++ List.replicate (n - line.length) blank

/-- Padding fills columns with what is as wide as their characters. -/
theorem padding_eq_fill (n : Nat) (line : Text) : padding n line = fill pad ' ' n line := by
  induction n generalizing line with
  | zero => simp [padding, fill]
  | succ n ih =>
    cases line with
    | nil =>
      rw [padding, ih]
      simp [fill, List.replicate_succ]
    | cons c line =>
      rw [padding, ih]
      simp [fill, pad]

/-- Marks fill columns with marks, at least one for each character. -/
theorem marks_eq_fill (marker : Char) (n : Nat) (line : Text) :
    marks marker n line = fill (mark marker) marker n line := by
  induction n generalizing line with
  | zero => simp [marks, fill]
  | succ n ih =>
    cases line with
    | nil =>
      rw [marks, ih]
      simp [fill, List.replicate_succ]
    | cons c line =>
      rw [marks, ih, Nat.max_comm]
      simp [fill, mark]

/-- If a line and what is behind it read as `filled` and more, and each character behind the line
stands for one blank, then its first columns are filled like the characters of `filled`. -/
theorem fill_eq_flatMap {group : Char → Text} {blank : Char} {line behind filled rest : Text}
    (hbehind : ∀ c ∈ behind, group c = [blank]) (h : line ++ behind = filled ++ rest) :
    fill group blank filled.length line = filled.flatMap group := by
  have hfilled : filled = line.take filled.length ++ behind.take (filled.length - line.length) := by
    rw [← List.take_append, h, List.take_left]
  have hlen : (behind.take (filled.length - line.length)).length = filled.length - line.length := by
    have hle := congrArg List.length h
    rw [List.length_append, List.length_append] at hle
    rw [List.length_take]
    omega
  have hblank : (behind.take (filled.length - line.length)).flatMap group =
      List.replicate (filled.length - line.length) blank := by
    calc (behind.take (filled.length - line.length)).flatMap group
      _ = (behind.take (filled.length - line.length)).flatMap fun _ => [blank] :=
        List.flatMap_congr fun c hc => hbehind c (List.mem_of_mem_take hc)
      _ = List.replicate (filled.length - line.length) blank := by
        rw [← List.map_eq_flatMap, List.map_const', hlen]
  calc fill group blank filled.length line
    _ = (line.take filled.length).flatMap group ++
        (behind.take (filled.length - line.length)).flatMap group := by rw [fill, hblank]
    _ = filled.flatMap group := by rw [← List.flatMap_append, ← hfilled]

/-- Padding is as wide as what it stands for. -/
theorem across_pad (tab : Nat → Nat) (x : Nat) (t : Text) :
    Width.across tab x (t.flatMap pad) = Width.across tab x t := by
  induction t generalizing x with
  | nil => rfl
  | cons c t ih =>
    have hc : Width.across tab x (pad c) = Width.across tab x [c] := by
      unfold pad
      split_ifs with h
      · rw [h]
      · rw [Width.across_spaces, Width.across, if_neg h]
        rfl
    rw [List.flatMap_cons, Width.across_append, hc, ih]
    rfl

/-- For a character of a line break there is one space, or one mark. -/
theorem pad_of_isBreak {cell : Cell} (h : cell.isBreak = true) : pad cell.char = [' '] := by
  have htab : cell.char ≠ '\t' := by
    rintro htab
    rw [Cell.isBreak, htab] at h
    cases h
  rw [pad, if_neg htab, Width.display_of_isBreak h]
  rfl

/-- Half of a line break has one mark. -/
theorem mark_of_isBreak (marker : Char) {cell : Cell} (h : cell.isBreak = true) :
    mark marker cell.char = [marker] := by
  rw [mark, Width.display_of_isBreak h]
  rfl

end Underline

namespace Segment

variable {d : Document} {s line : Segment} {before after : Text}

/-- The characters of the segment that are marked on line `r`: all that are on it or, on a line
before that of its last character, those that the line shows. -/
def markedOn (s : Segment) (r : Nat) : List Cell :=
  if r < s.stop.line then (s.cellsOn r).filter (!·.isBreak) else s.cellsOn r

/-! ## Columns of a segment -/

/-- The characters before the segment and its own are those of the text up to its end. -/
theorem LiesBetween.cellsBefore_append (h : s.LiesBetween before after) (r : Nat) :
    s.cellsBefore r ++ s.cellsOn r = s.document.start.cellsOn 0 r (before ++ s.text) := by
  rw [h.cellsBefore_eq, h.cellsOn_eq, Position.cellsOn_append, Nat.zero_add]
  cases s.text with
  | nil => rfl
  | cons c t => rfl

namespace Aligned

/-- On the line where a segment starts there are as many characters before it as its column
says. -/
theorem start_col_eq (h : s.Aligned before after) : s.start.col =
    (s.document.start.lineStart s.start.line).col + (s.cellsBefore s.start.line).length := by
  rw [h.lies.cellsBefore_eq]
  by_cases hne : s.text = []
  · rcases h.emptyStart hne with ⟨rfl, hstart⟩ | ⟨b, c, rfl, hstart | ⟨-, hstart⟩⟩
    · rw [hstart]
      simp [Position.lineStart, Position.cellsOn, Position.cells]
    · -- It is just past the last of them.
      have hcol := Position.col_advance_eq s.document.start 0 b (some c)
      rw [hstart, Position.cellsOn_concat, if_pos rfl, List.length_append, List.length_singleton,
        ← Nat.add_assoc, ← hcol]
    · -- It starts a line, on which there is none before it.
      have hfirst := s.document.start.line_le_advance b (some c)
      have hnone : s.document.start.cellsOn 0 ((s.document.start.advance b (some c)).line + 1)
          (b ++ [c]) = [] := by
        rw [Position.cellsOn_concat, if_neg (by omega), List.append_nil]
        exact Position.cellsOn_eq_nil_of_advance_lt (Nat.lt_succ_self _)
      rw [hstart, hnone, Position.lineStart, if_neg (by simp only; omega)]
      rfl
  · rw [h.start hne]
    exact Position.col_advance_eq _ _ _ _

/-- On later lines there are none. -/
theorem cellsBefore_eq_nil (h : s.Aligned before after) (hne : s.text ≠ []) {r : Nat}
    (hr : s.start.line < r) : s.cellsBefore r = [] := by
  rw [h.start hne] at hr
  rw [h.lies.cellsBefore_eq]
  exact Position.cellsOn_eq_nil_of_advance_lt hr

/-- On the line where a segment ends there are as many characters up to its last one as the column
of that says. -/
theorem stop_col_eq (h : s.Aligned before after) (hcols : s.document.ColumnsFit)
    (hne : s.text ≠ []) : s.stop.col + 1 =
      ((s.document.start.lineStart s.stop.line).col +
        (s.cellsBefore s.stop.line ++ s.cellsOn s.stop.line).length : Nat) := by
  obtain hnil | ⟨l, c, htext⟩ := s.text.eq_nil_or_concat'
  · exact absurd hnil hne
  · have hcol := Position.col_advance_eq s.document.start 0 (before ++ l) (some c)
    have hlast := Position.cellsOn_concat s.document.start 0
      (s.document.start.advance (before ++ l) (some c)).line (before ++ l) c
    rw [if_pos rfl] at hlast
    rw [h.stop_eq hcols htext, h.lies.cellsBefore_append, htext, ← List.append_assoc, hlast,
      List.length_append, List.length_singleton, ← Nat.add_assoc, ← hcol]
    rfl

/-- The text behind a segment does not go on on lines before that where the segment ends. -/
theorem stop_line_le (h : s.Aligned before after) (hcols : s.document.ColumnsFit)
    (hne : s.text ≠ []) :
    s.stop.line ≤ (s.document.start.advance (before ++ s.text) after.head?).line := by
  obtain hnil | ⟨l, c, htext⟩ := s.text.eq_nil_or_concat'
  · exact absurd hnil hne
  · rw [h.stop_eq hcols htext, htext, ← List.append_assoc, Position.advance_concat]
    exact Position.line_le_advance _ [c] after.head?

end Aligned

/-! ## A line cut by a segment -/

/-- The line `line` of the document of `s` is cut in three: the characters before the segment, its
own, and those that are `behind` it. Together they are what the line shows and the break that ends
it. -/
structure CutsLine (s line : Segment) (behind shown breaks : List Cell) : Prop where
  /-- The characters on the line. -/
  cells : s.cellsBefore line.start.line ++ (s.cellsOn line.start.line ++ behind) = shown ++ breaks
  /-- The line shows some of them, -/
  text : shown.map Cell.char = line.text
  /-- which are in no break, -/
  shown : ∀ cell ∈ shown, cell.isBreak = false
  /-- and the others are. -/
  breaks : ∀ cell ∈ breaks, cell.isBreak = true
  /-- They stand in columns that follow each other. -/
  columns : (s.cellsBefore line.start.line ++ (s.cellsOn line.start.line ++ behind)).map
      (·.position.col) = List.range' line.start.col
        (s.cellsBefore line.start.line ++ (s.cellsOn line.start.line ++ behind)).length
  /-- Nothing of the line is behind a segment that ends on a later one. -/
  behind : s.text ≠ [] → line.start.line < s.stop.line → behind = []

/-- A row of the document is cut by the segment into what is behind, shown and broken off. -/
theorem Aligned.exists_cutsLine (h : s.Aligned before after) (hcols : s.document.ColumnsFit)
    (hline : IsRow s.document line.start.line line) :
    ∃ behind shown breaks, s.CutsLine line behind shown breaks := by
  obtain ⟨behind, hcells, hbehind⟩ := h.lies.exists_cellsOn_document line.start.line
  obtain ⟨shown, breaks, hsplit, htext, hshown, hbreaks⟩ :=
    Position.showsRows s.document.text s.document.start 0 line.start.line
  have hcolumns := Position.map_col_cellsOn s.document.start 0 line.start.line s.document.text
  rw [← hline.start, hcells] at hcolumns
  refine ⟨behind, shown, breaks, ⟨hcells.symm.trans hsplit, htext.trans hline.text.symm, hshown,
    hbreaks, hcolumns, fun hne hlt => hbehind ?_⟩⟩
  exact Nat.lt_of_lt_of_le hlt (h.stop_line_le hcols hne)

namespace CutsLine

variable {behind shown breaks : List Cell}

/-- What is marked is the first part of what is not before the segment. -/
theorem exists_marked (h : s.CutsLine line behind shown breaks) (hne : s.text ≠ []) :
    ∃ rest, s.cellsOn line.start.line ++ behind = s.markedOn line.start.line ++ rest ∧
      (line.start.line < s.stop.line → s.markedOn line.start.line =
        shown.drop (s.cellsBefore line.start.line).length) := by
  unfold markedOn
  split_ifs with hlt
  · obtain rfl := h.behind hne hlt
    have hcut : s.cellsOn line.start.line =
        shown.drop (s.cellsBefore line.start.line).length ++
          breaks.drop ((s.cellsBefore line.start.line).length - shown.length) := by
      rw [← List.drop_append, ← h.cells, List.append_nil, List.drop_left]
    have hmarked : (s.cellsOn line.start.line).filter (!·.isBreak) =
        shown.drop (s.cellsBefore line.start.line).length := by
      rw [hcut, List.filter_append, List.filter_eq_self.mpr, List.filter_eq_nil_iff.mpr,
        List.append_nil]
      · intro cell hcell
        simp [h.breaks cell (List.mem_of_mem_drop hcell)]
      · intro cell hcell
        simp [h.shown cell (List.mem_of_mem_drop hcell)]
    exact ⟨_, by rw [hmarked, List.append_nil]; exact hcut, fun _ => hmarked⟩
  · exact ⟨behind, rfl, fun h => absurd h hlt⟩

/-- The marked characters stand in columns that follow those before the segment. -/
theorem map_col_marked (h : s.CutsLine line behind shown breaks) (hne : s.text ≠ []) :
    (s.markedOn line.start.line).map (·.position.col) =
      List.range' (line.start.col + (s.cellsBefore line.start.line).length)
        (s.markedOn line.start.line).length := by
  obtain ⟨rest, hrest, -⟩ := h.exists_marked hne
  have hcolumns := h.columns
  rw [hrest, List.map_append, List.map_append, List.length_append, List.length_append,
    ← List.range'_append_1, ← List.range'_append_1] at hcolumns
  have hlater := (List.append_inj hcolumns (by simp)).2
  exact (List.append_inj hlater (by simp)).1

/-- Padding stands for the characters before the segment. -/
theorem padding_eq (h : s.CutsLine line behind shown breaks) :
    Underline.padding (s.cellsBefore line.start.line).length line.text =
      ((s.cellsBefore line.start.line).map Cell.char).flatMap Underline.pad := by
  have hcells := congrArg (List.map Cell.char) h.cells
  rw [List.map_append, List.map_append, List.map_append, h.text] at hcells
  have hbreaks : ∀ c ∈ breaks.map Cell.char, Underline.pad c = [' '] :=
    List.forall_mem_map.mpr fun cell hcell => Underline.pad_of_isBreak (h.breaks cell hcell)
  rw [Underline.padding_eq_fill, ← Underline.fill_eq_flatMap hbreaks hcells.symm, List.length_map]

/-- Marks stand for the characters that are marked. -/
theorem marks_eq (h : s.CutsLine line behind shown breaks) (hne : s.text ≠ []) (marker : Char) :
    Underline.marks marker (s.markedOn line.start.line).length
        (line.text.drop (s.cellsBefore line.start.line).length) =
      ((s.markedOn line.start.line).map Cell.char).flatMap (Underline.mark marker) := by
  obtain ⟨rest, hrest, -⟩ := h.exists_marked hne
  have hcells : shown.drop (s.cellsBefore line.start.line).length ++
      breaks.drop ((s.cellsBefore line.start.line).length - shown.length) =
        s.markedOn line.start.line ++ rest := by
    rw [← List.drop_append, ← h.cells, List.drop_left, hrest]
  replace hcells := congrArg (List.map Cell.char) hcells
  rw [List.map_append, List.map_append, List.map_drop, h.text] at hcells
  have hbreaks : ∀ c ∈ (breaks.drop ((s.cellsBefore line.start.line).length -
      shown.length)).map Cell.char, Underline.mark marker c = [marker] :=
    List.forall_mem_map.mpr fun cell hcell =>
      Underline.mark_of_isBreak marker (h.breaks cell (List.mem_of_mem_drop hcell))
  rw [Underline.marks_eq_fill, ← Underline.fill_eq_flatMap hbreaks hcells, List.length_map]

end CutsLine

/-! ## What is drawn below a line -/

/-- The padding below a line. -/
def paddingBelow (s line : Segment) : Text :=
  if line.start.line = s.start.line then
    Underline.padding (s.start.col - line.start.col) line.text
  else []

/-- The marks below a line, behind the padding. -/
def marksBelow (s : Segment) (marker : Char) (line : Segment) : Text :=
  let base := line.start.col
  let firstCol := if line.start.line = s.start.line then max s.start.col base else base
  let count :=
    if line.start.line < s.stop.line then base + line.text.length - firstCol
    else (s.stop.col + 1 - firstCol).toNat
  if s.start.line = s.stop.line ∧ s.stop.col < signedCol s.start.col then [marker]
  else Underline.marks marker count (line.text.drop (firstCol - base))

/-- The padding and the marks below the line `line`, for a segment `s` that touches it. -/
structure DrawnBelow (s line : Segment) (marker : Char) (padding marks : Text) : Prop where
  /-- An empty segment has one mark. -/
  point : s.isEmpty = true → marks = [marker]
  /-- Any other has as many for each marked character as that is wide, but no less than one. -/
  marked : s.isEmpty = false →
    marks = ((s.markedOn line.start.line).map Cell.char).flatMap (Underline.mark marker)
  /-- The marked characters stand in columns that follow each other, from the start of the segment
  on or, below its first line, from that of the line on. -/
  columns : (s.markedOn line.start.line).map (·.position.col) =
    List.range' (if line.start.line = s.start.line then s.start.col else line.start.col)
      (s.markedOn line.start.line).length
  /-- On the first line there is padding for each character of the line before the start of the
  segment, and a space for each column past the end of the line. -/
  padded : line.start.line = s.start.line →
    padding = (line.text.take (s.start.col - line.start.col)).flatMap Underline.pad ++
      List.replicate (s.start.col - line.start.col - line.text.length) ' '
  /-- It is as wide as all that the document has on the line before the segment. -/
  padded_wide : line.start.line = s.start.line → ∀ tab x,
    Width.across tab x padding =
      Width.across tab x ((s.cellsBefore line.start.line).map Cell.char)
  /-- On later lines there is none. -/
  padded_later : line.start.line ≠ s.start.line → padding = []

namespace Aligned

variable (h : s.Aligned before after) (hcols : s.document.ColumnsFit)
  (hline : IsRow s.document line.start.line line)

include h hline in
/-- On the line where a segment starts, the characters before it fill the columns before its
start. -/
theorem start_col_eq_line (hstart : line.start.line = s.start.line) :
    s.start.col = line.start.col + (s.cellsBefore line.start.line).length := by
  have hcol := h.start_col_eq
  rwa [← hstart, ← hline.start] at hcol

include h hline in
/-- So they do in general, if the first column is that of the start of the segment or, on a later
line, of the line. -/
theorem firstCol_eq (hne : s.text ≠ []) (hlow : s.start.line ≤ line.start.line) :
    (if line.start.line = s.start.line then s.start.col else line.start.col) =
      line.start.col + (s.cellsBefore line.start.line).length := by
  split_ifs with hstart
  · exact h.start_col_eq_line hline hstart
  · rw [h.cellsBefore_eq_nil hne (by omega)]
    rfl

include h hcols in
/-- A segment that ends on its first line, in a column before its start, is empty. -/
theorem isPoint_iff : s.start.line = s.stop.line ∧ s.stop.col < signedCol s.start.col ↔
    s.text = [] := by
  have hsigned := signedCol_of_le (h.col_le hcols)
  have hempty := h.isEmpty_iff hcols
  rw [WellPlaced.isEmpty_iff ⟨before, after, h.lies⟩] at hempty
  constructor
  · rintro ⟨hlines, hcol⟩
    by_contra hne
    -- Its end is at least as far behind its start as it has characters on the line.
    have hstart := h.start_col_eq
    have hstop := h.stop_col_eq hcols hne
    rw [← hlines, List.length_append] at hstop
    refine hne (hempty.mpr ⟨hlines.symm, ?_⟩)
    omega
  · intro hnil
    obtain ⟨hlines, hcol⟩ := hempty.mp hnil
    omega

include h hcols hline in
/-- As many columns are marked on a line as characters. -/
theorem count_eq (hne : s.text ≠ []) (hhigh : line.start.line ≤ s.stop.line)
    {behind shown breaks : List Cell} (hcut : s.CutsLine line behind shown breaks) :
    (if line.start.line < s.stop.line then
      line.start.col + line.text.length - (line.start.col + (s.cellsBefore line.start.line).length)
    else (s.stop.col + 1 -
      ((line.start.col + (s.cellsBefore line.start.line).length : Nat) : Int)).toNat) =
      (s.markedOn line.start.line).length := by
  obtain ⟨rest, -, hmarked⟩ := hcut.exists_marked hne
  split_ifs with hlt
  · -- They are what the line shows behind the start of the segment.
    rw [hmarked hlt, List.length_drop, ← hcut.text, List.length_map, Nat.add_sub_add_left]
  · -- They are all from there to the last character.
    have hlast : s.stop.line = line.start.line := by omega
    have hcol := h.stop_col_eq hcols hne
    rw [hlast, ← hline.start, List.length_append] at hcol
    rw [markedOn, if_neg hlt]
    omega

include h hcols hline in
/-- What is drawn below a line. -/
theorem drawnBelow (marker : Char) (hlow : s.start.line ≤ line.start.line)
    (hhigh : line.start.line ≤ s.stop.line) :
    s.DrawnBelow line marker (s.paddingBelow line) (s.marksBelow marker line) := by
  have hplaced : s.WellPlaced := ⟨before, after, h.lies⟩
  have hempty := hplaced.isEmpty_iff
  obtain ⟨behind, shown, breaks, hcut⟩ := h.exists_cutsLine hcols hline
  -- The columns before the start are those of the characters before it.
  have hpadding (hstart : line.start.line = s.start.line) :
      Underline.padding (s.start.col - line.start.col) line.text =
        ((s.cellsBefore line.start.line).map Cell.char).flatMap Underline.pad := by
    rw [h.start_col_eq_line hline hstart, Nat.add_sub_cancel_left, hcut.padding_eq]
  refine
    { point := fun he => ?_
      marked := fun he => ?_
      columns := ?_
      padded := fun hstart => ?_
      padded_wide := fun hstart tab x => ?_
      padded_later := fun hlater => if_neg hlater }
  · unfold marksBelow
    rw [if_pos ((h.isPoint_iff hcols).mpr (hempty.mp he))]
  · have hne : s.text ≠ [] := fun hnil => by
      rw [hempty.mpr hnil] at he
      cases he
    -- A line does not begin behind the start of the segment.
    have hfirst : (if line.start.line = s.start.line then max s.start.col line.start.col
        else line.start.col) = line.start.col + (s.cellsBefore line.start.line).length := by
      rw [← h.firstCol_eq hline hne hlow]
      refine ite_congr rfl (fun hstart => Nat.max_eq_left ?_) fun _ => rfl
      rw [h.start_col_eq_line hline hstart]
      exact Nat.le_add_right _ _
    unfold marksBelow
    simp only
    rw [if_neg fun hpoint => hne ((h.isPoint_iff hcols).mp hpoint), hfirst,
      h.count_eq hcols hline hne hhigh hcut, Nat.add_sub_cancel_left]
    exact hcut.marks_eq hne marker
  · by_cases hne : s.text = []
    · -- An empty segment has no characters.
      have hnone : s.markedOn line.start.line = [] := by
        unfold markedOn
        rw [h.lies.cellsOn_eq, hne]
        exact ite_self _
      rw [hnone]
      rfl
    · rw [hcut.map_col_marked hne, h.firstCol_eq hline hne hlow]
  · rw [paddingBelow, if_pos hstart, Underline.padding_eq_fill]
    rfl
  · rw [paddingBelow, if_pos hstart, hpadding hstart, Underline.across_pad]

end Aligned

/-- Marks stand under the characters of a segment, and under no others: on each line that it
touches those are marked that it has there, as wide as they are shown, but for a line break at the
end of a line before its last. What has no characters has one mark. -/
theorem Reachable.marks_under_characters (hs : Reachable d s) (hcols : d.ColumnsFit)
    (layout : Layout) :
    ∃ (rows : List Segment) (padding marks : Segment → Text),
      rows.length + s.start.line = s.stop.line + 1 ∧ (s.isEmpty = true → rows.length = 1) ∧
      (∀ k row, rows[k]? = some row → IsRow d (s.start.line + k) row ∧
        s.DrawnBelow row layout.marker (padding row) (marks row)) ∧
      s.underline layout = layout.separator.intercalate (rows.map fun row =>
        row.text ++ layout.separator ++ (padding row ++ marks row)) := by
  have hsound := hs.sound hcols
  have hle := hsound.start_le_stop
  have hlength := length_touched hsound
  refine ⟨_, s.paddingBelow, s.marksBelow layout.marker, by omega, fun he => ?_,
    fun k row hk => ?_, rfl⟩
  · obtain ⟨hline, -⟩ := hsound.isEmpty_iff.mp he
    rw [hlength, hline]
    omega
  · have hrow := isRow_of_touched hsound hk
    have hline : row.start.line = s.start.line + k := by
      rw [hrow.start, Position.line_lineStart]
    have hlt : k < s.stop.line + 1 - s.start.line := by
      obtain ⟨hlt, -⟩ := List.getElem?_eq_some_iff.mp hk
      rwa [hlength] at hlt
    obtain ⟨rfl, before, after, h⟩ := hs.aligned hcols
    rw [← hline] at hrow ⊢
    exact ⟨hrow, h.drawnBelow hcols hrow layout.marker (by omega) (by omega)⟩

end Segment

end SourceText
