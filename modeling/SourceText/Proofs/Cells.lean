import Mathlib.Data.List.Induction
import SourceText.Proofs.Coordinates
import SourceText.Proofs.Rows

/-!
# Characters where they stand

`Position.cells` lists the characters of a text, each with its offset and its position. They are the
reference for what is drawn below a text: a walk that ends on some line has passed as many
characters on it as the column says (`Position.col_advance_eq`), so the characters on one line stand
in columns that follow each other (`Position.map_col_cellsOn`). They are those that the line shows,
and behind them those of the break that ends it (`Position.exists_shown_breaks`).

A segment cuts the characters of its document in three (`Segment.LiesBetween.cells_eq`), and so
those on each line.
-/

namespace SourceText

open Text (byteLength)

/-- A character of a document where it stands. -/
structure Cell where
  /-- The offset in the document. -/
  offset : Nat
  /-- The line and the column. -/
  position : Position
  /-- The character. -/
  char : Char
  deriving DecidableEq, Repr

/-- Line breaks are made of two characters, and this is one of them. -/
def Cell.isBreak (cell : Cell) : Bool := cell.char == '\n' || cell.char == '\r'

namespace Position

/-- The characters of a text that starts at `p` and at an offset. -/
def cells (p : Position) (offset : Nat) : Text → List Cell
  | [] => []
  | c :: rest => ⟨offset, p, c⟩ :: cells (p.after c rest.head?) (offset + c.utf8Size) rest

/-- Those on line `r`. -/
def cellsOn (p : Position) (offset : Nat) (r : Nat) (t : Text) : List Cell :=
  (p.cells offset t).filter (·.position.line = r)

variable (p : Position) (offset r : Nat)

/-- They read as the text. -/
theorem map_char_cells (t : Text) : (p.cells offset t).map Cell.char = t := by
  induction t generalizing p offset with
  | nil => rfl
  | cons c t ih => rw [cells, List.map_cons, ih]

/-- Those behind `l` go on where the walk over `l` leads. -/
theorem cells_append (l m : Text) : p.cells offset (l ++ m) =
    p.cells offset l ++ (p.advance l m.head?).cells (offset + byteLength l) m := by
  induction l generalizing p offset with
  | nil => rfl
  | cons c l ih =>
    rw [List.cons_append, cells, ih, advance_cons, List.head?_append, Text.byteLength_cons,
      ← Nat.add_assoc]
    cases l with
    | nil => rfl
    | cons d l => rfl

/-- The last character is where the walk over all before it leads. -/
theorem cells_concat (l : Text) (c : Char) : p.cells offset (l ++ [c]) =
    p.cells offset l ++ [⟨offset + byteLength l, p.advance l (some c), c⟩] :=
  p.cells_append offset l [c]

/-- Those behind `l` on a line go on where the walk over `l` leads. -/
theorem cellsOn_append (l m : Text) : p.cellsOn offset r (l ++ m) =
    p.cellsOn offset r l ++ (p.advance l m.head?).cellsOn (offset + byteLength l) r m := by
  rw [cellsOn, cells_append, List.filter_append]
  rfl

/-- One character more is on the line if the walk has come there. -/
theorem cellsOn_concat (l : Text) (c : Char) : p.cellsOn offset r (l ++ [c]) =
    p.cellsOn offset r l ++
      if (p.advance l (some c)).line = r then [⟨offset + byteLength l, p.advance l (some c), c⟩]
      else [] := by
  rw [cellsOn, cells_concat, List.filter_append, List.filter_singleton, Bool.cond_decide]
  rfl

/-- The first character is on the line if the text starts there. -/
theorem cellsOn_cons (c : Char) (t : Text) : p.cellsOn offset r (c :: t) =
    (if p.line = r then [⟨offset, p, c⟩] else []) ++
      (p.after c t.head?).cellsOn (offset + c.utf8Size) r t := by
  have hc : p.cellsOn offset r [c] = if p.line = r then [⟨offset, p, c⟩] else [] :=
    p.cellsOn_concat offset r [] c
  rw [← hc]
  exact p.cellsOn_append offset r [c] t

/-! ## Lines and columns -/

variable {p offset r}

/-- A text has no characters on lines before the one where it starts. -/
theorem line_le_of_mem_cells {t : Text} {cell : Cell} (h : cell ∈ p.cells offset t) :
    p.line ≤ cell.position.line := by
  induction t generalizing p offset with
  | nil => cases h
  | cons c t ih =>
    have hstep : p.line ≤ (p.after c t.head?).line := p.line_le_advance [c] t.head?
    rcases List.mem_cons.mp h with rfl | h
    · exact Nat.le_refl _
    · exact Nat.le_trans hstep (ih h)

/-- Nor does it have any on lines behind the one where the walk over it leads. -/
theorem line_le_advance_of_mem_cells {t : Text} {next? : Option Char} {cell : Cell}
    (h : cell ∈ p.cells offset t) : cell.position.line ≤ (p.advance t next?).line := by
  induction t using List.reverseRecOn generalizing next? with
  | nil => cases h
  | append_singleton b c ih =>
    have hstep : (p.advance b (some c)).line ≤ ((p.advance b (some c)).after c next?).line :=
      (p.advance b (some c)).line_le_advance [c] next?
    rw [advance_concat]
    rw [cells_concat] at h
    rcases List.mem_append.mp h with h | h
    · exact Nat.le_trans (ih h) hstep
    · obtain rfl := List.mem_singleton.mp h
      exact hstep

/-- The characters lie between the offset of the text and its end. -/
theorem offset_of_mem_cells {t : Text} {cell : Cell} (h : cell ∈ p.cells offset t) :
    offset ≤ cell.offset ∧ cell.offset < offset + byteLength t := by
  induction t generalizing p offset with
  | nil => cases h
  | cons c t ih =>
    have hc := c.utf8Size_pos
    rw [Text.byteLength_cons]
    rcases List.mem_cons.mp h with rfl | h
    · exact ⟨Nat.le_refl _, by simp only; omega⟩
    · obtain ⟨hlow, hhigh⟩ := ih h
      omega

/-- Nothing is on a line above the start. -/
theorem cellsOn_eq_nil_of_lt {t : Text} (h : r < p.line) : p.cellsOn offset r t = [] := by
  refine List.filter_eq_nil_iff.mpr fun cell hcell hline => ?_
  have hle := line_le_of_mem_cells hcell
  rw [decide_eq_true_eq] at hline
  omega

/-- Nothing is on a line below the end. -/
theorem cellsOn_eq_nil_of_advance_lt {t : Text} {next? : Option Char}
    (h : (p.advance t next?).line < r) : p.cellsOn offset r t = [] := by
  refine List.filter_eq_nil_iff.mpr fun cell hcell hline => ?_
  have hle : cell.position.line ≤ (p.advance t next?).line := line_le_advance_of_mem_cells hcell
  rw [decide_eq_true_eq] at hline
  omega

/-- A walk has passed as many characters on the line where it ends as the column says. -/
theorem col_advance_eq (p : Position) (offset : Nat) (t : Text) (next? : Option Char) :
    (p.advance t next?).col = (p.lineStart (p.advance t next?).line).col +
      (p.cellsOn offset (p.advance t next?).line t).length := by
  induction t using List.reverseRecOn generalizing next? with
  | nil => simp [lineStart, cellsOn, cells]
  | append_singleton b c ih =>
    have hfirst : p.line ≤ (p.advance b (some c)).line := p.line_le_advance b _
    rw [advance_concat]
    rcases (p.advance b (some c)).after_eq c next? with h | ⟨-, h⟩
    · -- One character more on the same line.
      rw [h, cellsOn_concat, if_pos rfl, List.length_append, List.length_singleton,
        ← Nat.add_assoc, ← ih]
    · -- On the next line there is none so far.
      have hnone : p.cellsOn offset ((p.advance b (some c)).line + 1) (b ++ [c]) = [] := by
        rw [cellsOn_concat, if_neg (by omega), List.append_nil]
        exact cellsOn_eq_nil_of_advance_lt (Nat.lt_succ_self _)
      rw [h, hnone, lineStart, if_neg (by simp only; omega)]
      rfl

/-- The characters on a line stand in columns that follow each other. -/
theorem map_col_cellsOn (p : Position) (offset r : Nat) (t : Text) :
    (p.cellsOn offset r t).map (·.position.col) =
      List.range' (p.lineStart r).col (p.cellsOn offset r t).length := by
  induction t using List.reverseRecOn with
  | nil => rfl
  | append_singleton b c ih =>
    rw [cellsOn_concat]
    split_ifs with h
    · have hcol := col_advance_eq p offset b (some c)
      rw [h] at hcol
      rw [List.map_append, ih, List.length_append, List.length_singleton, List.range'_1_concat,
        ← hcol]
      rfl
    · rw [List.append_nil]
      exact ih

/-! ## What a line shows, and the break behind it -/

/-- On each line of the text, wherever that starts, the characters that the line shows come first,
and behind them those of the break that ends it. -/
def ShowsRows (t : Text) : Prop :=
  ∀ (p : Position) (offset r : Nat), ∃ shown breaks, p.cellsOn offset r t = shown ++ breaks ∧
    shown.map Cell.char = p.row r t ∧ (∀ cell ∈ shown, cell.isBreak = false) ∧
      ∀ cell ∈ breaks, cell.isBreak = true

/-- A character that ends no line is shown. -/
theorem ShowsRows.other {c : Char} {t : Text} (hn : c ≠ '\n') (hr : c ≠ '\r') (h : ShowsRows t) :
    ShowsRows (c :: t) := by
  intro p offset r
  obtain ⟨shown, breaks, hcells, hrow, hshown, hbreaks⟩ :=
    h ⟨p.line, p.col + 1⟩ (offset + c.utf8Size) r
  have hafter : p.after c t.head? = ⟨p.line, p.col + 1⟩ := by
    simp [after, hn, hr]
  rw [cellsOn_cons, hafter, hcells, row_other _ _ _ hn hr, ← hrow]
  split_ifs
  · have hc : (⟨offset, p, c⟩ : Cell).isBreak = false := by
      simp [Cell.isBreak, hn, hr]
    exact ⟨⟨offset, p, c⟩ :: shown, breaks, rfl, rfl, List.forall_mem_cons.mpr ⟨hc, hshown⟩,
      hbreaks⟩
  · exact ⟨shown, breaks, rfl, rfl, hshown, hbreaks⟩

/-- A break `m` is all that its line has left. -/
theorem ShowsRows.afterBreak {m t : Text} (hbreak : ∀ c ∈ m, c = '\n' ∨ c = '\r')
    (hline : ∀ (p : Position) offset, ∀ cell ∈ p.cells offset m, cell.position.line = p.line)
    (hwalk : ∀ p : Position, p.advance m t.head? = ⟨p.line + 1, 0⟩)
    (hrow : ∀ (p : Position) r, p.row r (m ++ t) = row ⟨p.line + 1, 0⟩ r t) (h : ShowsRows t) :
    ShowsRows (m ++ t) := by
  intro p offset r
  rw [cellsOn_append, hwalk, hrow]
  by_cases hr : p.line = r
  · have hm : p.cellsOn offset r m = p.cells offset m :=
      List.filter_eq_self.mpr fun cell hcell =>
        decide_eq_true ((hline p offset cell hcell).trans hr)
    have hbelow : cellsOn ⟨p.line + 1, 0⟩ (offset + byteLength m) r t = [] :=
      cellsOn_eq_nil_of_lt (by simp only; omega)
    rw [hm, hbelow, row_eq_nil _ _ _ (by simp only; omega)]
    refine ⟨[], p.cells offset m, List.append_nil _, rfl, by simp, fun cell hcell => ?_⟩
    have hmem := List.mem_map_of_mem (f := Cell.char) hcell
    rw [map_char_cells] at hmem
    simpa [Cell.isBreak] using hbreak cell.char hmem
  · have hm : p.cellsOn offset r m = [] := List.filter_eq_nil_iff.mpr fun cell hcell hon =>
      hr ((hline p offset cell hcell).symm.trans (of_decide_eq_true hon))
    rw [hm]
    exact h _ _ r

/-- Every text shows its rows. The cases are those of the scan for line breaks. -/
theorem showsRows (t : Text) : ShowsRows t := by
  induction t using LineBreak.byBreaks with
  | nil => exact fun p offset r => ⟨[], [], rfl, rfl, by simp, by simp⟩
  | other c t hn hr ih => exact ih.other hn hr
  | lineFeed t ih =>
    exact ih.afterBreak (m := ['\n']) (by simp) (by simp [cells]) (fun _ => rfl) fun p r =>
      p.row_lineFeed r t
  | pair t ih =>
    exact ih.afterBreak (m := ['\r', '\n']) (by simp) (by simp [cells, after]) (fun _ => rfl)
      fun p r => p.row_pair r t
  | ret t ht ih =>
    have hwalk : ∀ p : Position, p.advance ['\r'] t.head? = ⟨p.line + 1, 0⟩ := fun p => by
      simp [advance, after, ht]
    exact ih.afterBreak (m := ['\r']) (by simp) (by simp [cells]) hwalk fun p r =>
      p.row_return r t ht

end Position

/-! ## The characters of a document and of a segment -/

/-- The characters of a document from offset `low` up to, and without, offset `high`. -/
def Document.cells (d : Document) (low high : Nat) : List Cell :=
  (d.start.cells 0 d.text).filter fun cell => low ≤ cell.offset ∧ cell.offset < high

/-- What lies between two cuts goes on where the walk to the first leads. -/
theorem Document.cells_eq {d : Document} {l m r : Text} (h : d.text = l ++ m ++ r) :
    d.cells (byteLength l) (byteLength (l ++ m)) =
      (d.start.advance l (m ++ r).head?).cells (byteLength l) m := by
  rw [cells, h, List.append_assoc, Position.cells_append, Position.cells_append,
    List.filter_append, List.filter_append, List.filter_eq_nil_iff.mpr, List.filter_eq_self.mpr,
    List.filter_eq_nil_iff.mpr, List.nil_append, List.append_nil, Nat.zero_add]
  · intro cell hcell
    have hoffset := Position.offset_of_mem_cells hcell
    rw [Nat.zero_add, ← Text.byteLength_append] at hoffset
    simp only [decide_eq_true_eq]
    omega
  · intro cell hcell
    have hoffset := Position.offset_of_mem_cells hcell
    rw [Nat.zero_add, ← Text.byteLength_append] at hoffset
    exact decide_eq_true hoffset
  · intro cell hcell
    have hoffset := Position.offset_of_mem_cells hcell
    simp only [decide_eq_true_eq]
    omega

namespace Segment

/-- The characters of the segment on line `r` of its document. -/
def cellsOn (s : Segment) (r : Nat) : List Cell :=
  (s.document.cells s.startOffset s.stopOffset).filter (·.position.line = r)

/-- The characters on line `r` of the document that come before the segment. -/
def cellsBefore (s : Segment) (r : Nat) : List Cell :=
  (s.document.cells 0 s.startOffset).filter (·.position.line = r)

namespace LiesBetween

variable {s : Segment} {before after : Text}

/-- The characters of a segment on a line are counted from where the walk over the text before it
leads. -/
theorem cellsOn_eq (h : s.LiesBetween before after) (r : Nat) : s.cellsOn r =
    (s.document.start.advance before (s.text ++ after).head?).cellsOn (byteLength before) r
      s.text := by
  rw [cellsOn, h.startOffset, h.stopOffset, Document.cells_eq h.text]
  rfl

/-- Those before it are counted from the start of the document. -/
theorem cellsBefore_eq (h : s.LiesBetween before after) (r : Nat) :
    s.cellsBefore r = s.document.start.cellsOn 0 r before := by
  have hcut : s.document.text = [] ++ before ++ (s.text ++ after) :=
    h.text.trans (List.append_assoc _ _ _)
  have hcells : s.document.cells 0 (byteLength before) = s.document.start.cells 0 before :=
    Document.cells_eq hcut
  rw [cellsBefore, h.startOffset, hcells]
  rfl

/-- A segment ends a line of its document if the document goes on behind it on a later one. -/
theorem exists_cellsOn_document (h : s.LiesBetween before after) (r : Nat) :
    ∃ behind, s.document.start.cellsOn 0 r s.document.text =
        s.cellsBefore r ++ (s.cellsOn r ++ behind) ∧
      (r < (s.document.start.advance (before ++ s.text) after.head?).line → behind = []) := by
  refine ⟨(s.document.start.advance (before ++ s.text) after.head?).cellsOn
    (byteLength (before ++ s.text)) r after, ?_, Position.cellsOn_eq_nil_of_lt⟩
  rw [h.cellsBefore_eq, h.cellsOn_eq, h.text, List.append_assoc, Position.cellsOn_append,
    Position.cellsOn_append, Position.advance_append, ← List.head?_append, Text.byteLength_append,
    Nat.zero_add]

end LiesBetween

end Segment

end SourceText
