import SourceText.Proofs.Machine.Split
import SourceText.Proofs.Rows
import SourceText.Segment.Underline

/-!
# Underlined context on the machine

Below the last row of a segment, columns are marked as long as they are not past its end, which is a
signed column. A column is taken as a signed one for that, and then all columns from the greatest
signed one on are the same: if that were the end of a segment, the marking would never stop. But the
end of a segment is less than it (`Segment.col_stop_lt`), so the marking stops at the column behind
the end (`Machine.markThrough_eq`).
-/

namespace SourceText

open Text (byteLength)

namespace Machine

/-- The character of a line in a column, where the line starts in column `base`. -/
def charInCol (base : Nat) (chars : Text) (col : Nat) : Option Char :=
  if base ≤ col then chars[col - base]? else none

/-- Padding for a column with a certain character. -/
def pad : Option Char → Text
  | some c => if c = '\t' then ['\t'] else List.replicate (Width.display c) ' '
  | none => [' ']

/-- Marks for a column with a certain character. -/
def mark (marker : Char) : Option Char → Text
  | some c => List.replicate (max (Width.display c) 1) marker
  | none => [marker]

/-- Something for each column from `first` on, `count` of them. -/
def columns (base : Nat) (line : Text) (column : Option Char → Text) (first count : Nat) : Text :=
  (List.range' first count).flatMap fun col => column (charInCol base line col)

/-- Marks a column if it is not past the signed column `stop`, and goes on to the next one. -/
def markNext (base : Nat) (line : Text) (marker : Char) (stop : Int) :
    Nat × Text → Machine (Text ⊕ (Nat × Text))
  | (col, marks) => do
    if signedCol col ≤ stop then
      return .inr (← add col 1, marks ++ mark marker (charInCol base line col))
    else return .inl marks

/-- Marks the columns from `col` on up to the signed column `stop`. -/
noncomputable def markThrough (base : Nat) (line : Text) (marker : Char) (stop : Int) (col : Nat)
    (marks : Text) : Machine Text :=
  loop (markNext base line marker stop) (col, marks)

/-- The marks below a line. -/
noncomputable def markLine (s : Segment) (marker : Char) (line : Segment) : Machine Text := do
  let chars ← text line
  let base := line.start.col
  let isFirst := line.start.line = s.start.line
  let indent :=
    if isFirst then columns base chars pad base (s.start.col - base) else []
  let firstCol := if isFirst then max s.start.col base else base
  if s.start.line = s.stop.line ∧ s.stop.col < signedCol s.start.col then
    return indent ++ [marker]
  else if line.start.line < s.stop.line then
    let stop ← add base chars.length
    return indent ++ columns base chars (mark marker) firstCol (stop - firstCol)
  else markThrough base chars marker s.stop.col firstCol indent

/-- The lines that a segment touches, each with the columns that the segment covers marked. -/
noncomputable def underline (s : Segment) (layout : Layout) : Machine Text := do
  let rows ← ((← lines s.root).filter s.touches).mapM fun line => do
    return (← text line) ++ layout.separator ++ (← markLine s layout.marker line)
  return layout.separator.intercalate rows

/-! ## Columns one by one -/

/-- What is made for each column of a line is made for each character, and then for no character. -/
theorem columns_eq {column : Option Char → Text} {all : Nat → Text → Text}
    (hzero : ∀ line, all 0 line = [])
    (hnext : ∀ n line, all (n + 1) line = column line.head? ++ all n line.tail)
    (base before n : Nat) (line : Text) :
    columns base line column (base + before) n = all n (line.drop before) := by
  unfold columns
  induction n generalizing before with
  | zero => rw [hzero, List.range'_zero, List.flatMap_nil]
  | succ n ih =>
    have hchar : charInCol base line (base + before) = (line.drop before).head? := by
      rw [charInCol, if_pos (Nat.le_add_right _ _), Nat.add_sub_cancel_left, List.head?_drop]
    rw [List.range'_succ, List.flatMap_cons, hchar, Nat.add_assoc, ih, hnext, List.tail_drop]

/-- Column by column, padding comes to that of the line. -/
theorem columns_pad (base n : Nat) (line : Text) :
    columns base line pad base n = Underline.padding n line := by
  refine columns_eq (fun _ => rfl) (fun n line => ?_) base 0 n line
  cases line <;> rfl

/-- Column by column, marks come to those of what is left of the line behind the first columns. -/
theorem columns_mark (base : Nat) (marker : Char) (before n : Nat) (line : Text) :
    columns base line (mark marker) (base + before) n =
      Underline.marks marker n (line.drop before) := by
  refine columns_eq (fun _ => rfl) (fun n line => ?_) base before n line
  cases line <;> rfl

/-- The marking stops behind an end that is less than the greatest signed column. -/
theorem markThrough_eq (base : Nat) (line : Text) (marker : Char) {stop : Int}
    (hstop : stop < maxSignedCol) (col : Nat) (marks : Text) :
    markThrough base line marker stop col marks =
      pure (marks ++ columns base line (mark marker) col (stop + 1 - col).toNat) := by
  have hcount := maxCount_eq
  generalize hn : (stop + 1 - col).toNat = n
  induction n generalizing col marks with
  | zero =>
    have hpast : ¬ signedCol col ≤ stop := by
      unfold signedCol
      omega
    rw [markThrough, loop_of_inl (by rw [markNext, if_neg hpast])]
    simp [columns]
  | succ n ih =>
    have hle : signedCol col ≤ stop := by
      unfold signedCol
      omega
    have hnext : markNext base line marker stop (col, marks) =
        pure (.inr (col + 1, marks ++ mark marker (charInCol base line col))) := by
      rw [markNext, if_pos hle, add_eq (by omega), pure_bind]
    have hrest := ih (col + 1) (marks ++ mark marker (charInCol base line col)) (by omega)
    rw [markThrough] at hrest ⊢
    rw [loop_of_inr hnext, hrest]
    unfold columns
    rw [List.range'_succ, List.flatMap_cons, List.append_assoc]

/-- With the greatest signed column for an end, no column would be past it, and the marking would
never stop. -/
theorem not_returns_markThrough (base : Nat) (line : Text) (marker : Char) (col : Nat)
    (marks marked : Text) :
    ¬ (markThrough base line marker maxSignedCol col marks).Returns marked := by
  refine not_returns_loop (fun s => ?_) _ _
  obtain ⟨col, marks⟩ := s
  have hle : signedCol col ≤ maxSignedCol := by
    unfold signedCol
    omega
  obtain ⟨next, hnext⟩ := exists_returns_add col 1
  refine ⟨(next, marks ++ mark marker (charInCol base line col)), ?_⟩
  rw [markNext, if_pos hle]
  exact hnext.bind (returns_pure _)

variable {s : Segment}

/-- A text without a line break is all on one line. -/
theorem col_advance_of_ne {t : Text} (h : ∀ c ∈ t, c ≠ '\n' ∧ c ≠ '\r') (p : Position)
    (next? : Option Char) : (p.advance t next?).col = p.col + t.length := by
  induction t generalizing p with
  | nil => rfl
  | cons c t ih =>
    rw [List.forall_mem_cons] at h
    have hafter : p.after c (t.head?.or next?) = ⟨p.line, p.col + 1⟩ := by
      simp [Position.after, h.1.1, h.1.2]
    rw [Position.advance_cons, hafter, ih h.2, List.length_cons, Nat.add_assoc, Nat.add_comm 1]

/-- The column behind a line can be counted. -/
theorem col_le_of_mem_lines (hs : s.Fits) {line : Segment} (h : line ∈ s.lines)
    (hline : line.Fits) : line.start.col + line.text.length ≤ maxCount := by
  obtain ⟨-, htext⟩ := Segment.row_of_mem_lines hs.placed h
  have hne : ∀ c ∈ line.text, c ≠ '\n' ∧ c ≠ '\r' := by
    rw [htext]
    exact fun c hc => Position.ne_of_mem_row hc
  rw [← col_advance_of_ne hne line.start none]
  exact hline.own.col line.text [] (by simp)

/-- The marks below a line are drawn, unless the machine cannot count to its end. -/
theorem markLine_comesTo (hs : s.WellPlaced) (marker : Char) {line : Segment}
    (hline : line.InMemory) : (markLine s marker line).ComesTo
      (line.start.col + line.text.length ≤ maxCount) (Underline.markLine s marker line) := by
  obtain ⟨-, hstop⟩ := Segment.col_stop_lt hs
  unfold markLine Underline.markLine
  rw [text_eq hline, pure_bind]
  simp only
  generalize hfirst : (if line.start.line = s.start.line then max s.start.col line.start.col
    else line.start.col) = firstCol
  have hbase : line.start.col + (firstCol - line.start.col) = firstCol := by
    rw [← hfirst]
    split_ifs <;> omega
  have hmarks (n : Nat) : columns line.start.col line.text (mark marker) firstCol n =
      Underline.marks marker n (line.text.drop (firstCol - line.start.col)) := by
    rw [← columns_mark, hbase]
  rw [columns_pad, markThrough_eq _ _ _ hstop, hmarks]
  generalize (if line.start.line = s.start.line then
    Underline.padding (s.start.col - line.start.col) line.text else []) = indent
  split_ifs
  · exact .pure _
  · refine (add_comesTo _ _).bind ?_
    rw [hmarks]
    exact .pure _
  · exact .pure _

/-- Runs that come to something for each member of a list come to all of it. -/
theorem mapM_comesTo {α β : Type} {run : α → Machine β} {f : α → β} {sure : Prop} {l : List α}
    (h : ∀ a ∈ l, (run a).ComesTo sure (f a)) : (l.mapM run).ComesTo sure (l.map f) := by
  induction l with
  | nil => exact .pure _
  | cons a l ih =>
    rw [List.forall_mem_cons] at h
    rw [List.mapM_cons]
    exact h.1.bind ((ih h.2).bind (.pure _))

/-- A segment is shown in its context, unless the machine cannot count to the end of its
document. -/
theorem underline_comesTo (hs : s.InMemory) (layout : Layout) :
    (underline s layout).ComesTo s.document.Fits (s.underline layout) := by
  have hfits : s.document.Fits → s.root.Fits := Segment.fits_ofDocument
  have hlinesFit : s.document.Fits → ∀ line ∈ s.root.lines, line.Fits := by
    intro hd line hline
    rcases Segment.isPart_lines hs.root.placed hline with rfl | hpart
    · exact hfits hd
    · exact hpart.fits (hfits hd)
  have hlines := (lines_comesTo hs.root).mono fun hd : s.document.Fits =>
    ⟨(hfits hd).charsCounted, fun line hline => (hlinesFit hd line hline).start_counted⟩
  refine hlines.bind ((mapM_comesTo fun line hline => ?_).bind (.pure _))
  have hmem := (List.mem_filter.mp hline).1
  have hline : line.InMemory := by
    rcases Segment.isPart_lines hs.root.placed hmem with rfl | hpart
    · exact hs.root
    · exact hpart.inMemory hs.root
  have hmarks := markLine_comesTo hs.placed layout.marker hline
  rw [text_eq hline, pure_bind]
  exact (hmarks.mono fun hd => col_le_of_mem_lines (hfits hd) hmem (hlinesFit hd line hmem)).bind
    (.pure _)

end Machine

end SourceText
