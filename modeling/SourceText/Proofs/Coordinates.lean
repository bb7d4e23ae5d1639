import Mathlib.Data.List.Basic
import SourceText.Proofs.LineBreak
import SourceText.Proofs.Reachable

/-!
# Coordinates

`Document.positionAt?` reads the position of a character off a walk through the whole document. A
segment that has characters starts at the position of its first and stops at that of its last,
however it was cut out. An empty one has no character of its own, and starts where it was cut out:
just past the character before it, on that character's line, or at the start of the next line when
that character breaks the line (`EmptyStart`).

`Segment.Aligned` is the start of this that parts keep (`Aligned.deriveAt`). It is enough, because a
segment's stop is that of its text walked from its start. Columns have to be small enough for a
signed number, since a stop keeps its column as one and `pastEnd` reads it back.

A walk goes on from any line to the next, however many there are. `Proofs.Machine.Coordinates` says
of the segments that a machine comes to, which has a greatest line, that they are at these
positions.
-/

namespace SourceText

open Text (byteLength isBoundary)

/-! ## The reference -/

/-- The position of the character that starts at offset `n` of a text whose first character is at
`p`. -/
def Position.at? (p : Position) : Text → Nat → Option Position
  | [], _ => none
  | _ :: _, 0 => some p
  | c :: rest, n + 1 =>
    if c.utf8Size ≤ n + 1 then at? (p.after c rest.head?) rest (n + 1 - c.utf8Size) else none

/-- The position of the character that starts at offset `n` of a document. -/
def Document.positionAt? (d : Document) (n : Nat) : Option Position := d.start.at? d.text n

/-- The character behind `l` is where the walk over `l` leads. -/
theorem Position.at?_append (p : Position) (l : Text) (c : Char) (r : Text) :
    p.at? (l ++ c :: r) (byteLength l) = some (p.advance l (some c)) := by
  induction l generalizing p with
  | nil => rfl
  | cons a l ih =>
    -- The offset is not zero, so the walk goes past `a`, and `l` is left of the offset.
    have ha := a.utf8Size_pos
    obtain ⟨n, hn⟩ : ∃ n, byteLength (a :: l) = n + 1 :=
      ⟨byteLength (a :: l) - 1, by rw [Text.byteLength_cons]; omega⟩
    have hsub : n + 1 - a.utf8Size = byteLength l := by
      rw [Text.byteLength_cons] at hn
      omega
    have hle : a.utf8Size ≤ n + 1 := by
      rw [Text.byteLength_cons] at hn
      omega
    rw [hn, List.cons_append, at?, if_pos hle, hsub, ih, advance_cons, List.head?_append]
    rfl

/-- The document behind `l` is the character `c`, at the end of the walk over `l`. -/
theorem Document.positionAt?_eq {d : Document} {l r : Text} {c : Char} (h : d.text = l ++ c :: r) :
    d.positionAt? (byteLength l) = some (d.start.advance l (some c)) := by
  rw [positionAt?, h, Position.at?_append]

/-- No column of a document is too large for a signed number. -/
def Document.ColumnsFit (d : Document) : Prop := d.start.col + d.text.length ≤ maxSignedCol

instance (d : Document) : Decidable d.ColumnsFit := inferInstanceAs (Decidable (_ ≤ _))

/-! ## Starts -/

/-- Where an empty segment behind `before` may start, in a text that starts at `p`. -/
def EmptyStart (p : Position) (before : Text) (start : Position) : Prop :=
  (before = [] ∧ start = p) ∨
    ∃ b c, before = b ++ [c] ∧
      (start = ⟨(p.advance b (some c)).line, (p.advance b (some c)).col + 1⟩ ∨
        (c = '\n' ∨ c = '\r') ∧ start = ⟨(p.advance b (some c)).line + 1, 0⟩)

/-- A walk leads where an empty segment may start. -/
theorem emptyStart_advance (p : Position) (before : Text) (next? : Option Char) :
    EmptyStart p before (p.advance before next?) := by
  rcases before.eq_nil_or_concat' with rfl | ⟨b, c, rfl⟩
  · exact .inl ⟨rfl, rfl⟩
  · -- The last step of the walk goes past `c`.
    rw [Position.advance_concat]
    exact .inr ⟨b, c, rfl, Position.after_eq _ _ _⟩

/-- The empty segment is not before the start of the text. -/
theorem EmptyStart.line_le {p start : Position} {before : Text} (h : EmptyStart p before start) :
    p.line ≤ start.line := by
  rcases h with ⟨-, rfl⟩ | ⟨b, c, -, h⟩
  · exact Nat.le_refl _
  · have hle := Position.line_le_advance p b (some c)
    rcases h with rfl | ⟨-, rfl⟩
    · exact hle
    · exact Nat.le_succ_of_le hle

/-- It is at most on the line where the text ends. A carriage return before it breaks the line even
where a line feed after it shares the break. -/
theorem EmptyStart.line_le_end {p start : Position} {before : Text} (h : EmptyStart p before start)
    (after : Text) : start.line ≤ (p.advance (before ++ after) none).line := by
  rcases h with ⟨-, rfl⟩ | ⟨b, c, rfl, h⟩
  · exact Position.line_le_advance _ _ _
  · rcases h with rfl | ⟨hc, rfl⟩
    · -- It is on the line of the character before it, which is no later than the end.
      rw [List.append_assoc]
      exact Position.line_advance_le p b (c :: after)
    · -- It is one line further down, and so is the end, since the break is complete there.
      rw [List.append_assoc]
      exact Position.line_advance_lt_of_break p b after hc

/-- Its column is at most as many characters on as come before it. -/
theorem EmptyStart.col_le {p start : Position} {before : Text} (h : EmptyStart p before start) :
    start.col ≤ p.col + before.length := by
  rcases h with ⟨rfl, rfl⟩ | ⟨b, c, rfl, h⟩
  · exact Nat.le_refl _
  · have hcol := Position.col_advance_le p b (some c)
    rw [List.length_append, List.length_singleton]
    rcases h with rfl | ⟨-, rfl⟩
    · simp only
      omega
    · exact Nat.zero_le _

namespace Segment

/-- The segment between `before` and `after` starts where its document says that it does. -/
structure Aligned (s : Segment) (before after : Text) : Prop where
  /-- It lies there. -/
  lies : s.LiesBetween before after
  /-- It starts at its first character. -/
  start : s.text ≠ [] → s.start = s.document.start.advance before s.text.head?
  /-- If it has none, it starts where an empty segment may. -/
  emptyStart : s.text = [] → EmptyStart s.document.start before s.start

/-- The root starts where its document does. -/
theorem ofDocument_aligned (d : Document) : (ofDocument d).Aligned [] [] where
  lies := ofDocument_liesBetween d
  start := fun _ => rfl
  emptyStart := fun _ => .inl ⟨rfl, rfl⟩

variable {s t : Segment} {before after : Text}

namespace Aligned

/-- A walk through a segment that has characters leads where one through its document does. -/
theorem walkTo_eq (h : s.Aligned before after) {l r : Text} (htext : s.text = l ++ r)
    (hne : s.text ≠ []) :
    s.walkTo (byteLength l) = s.document.start.advance (before ++ l) r.head? := by
  rw [Segment.walkTo_eq htext, h.start hne, htext, List.head?_append, Position.advance_append]

/-- The walk over all but the last character leads where one through the document does. -/
theorem advance_eq (h : s.Aligned before after) {l : Text} {c : Char} (htext : s.text = l ++ [c]) :
    s.start.advance l (some c) = s.document.start.advance (before ++ l) (some c) := by
  rw [h.start (by simp [htext]), htext, List.head?_append, Position.advance_append]
  rfl

/-- The last character is where the document says that it is. -/
theorem stop_eq (h : s.Aligned before after) (hcols : s.document.ColumnsFit) {l : Text} {c : Char}
    (htext : s.text = l ++ [c]) :
    s.stop = ⟨(s.document.start.advance (before ++ l) (some c)).line,
      (s.document.start.advance (before ++ l) (some c)).col⟩ := by
  have hcol := Position.col_advance_le s.document.start (before ++ l) (some c)
  have hlen : (before ++ l).length + 1 ≤ s.document.text.length := by
    rw [h.lies.text, htext]
    simp only [List.length_append, List.length_singleton]
    omega
  -- Just past the last character the column still fits, so its signed form is exact.
  have hfit : (s.document.start.advance (before ++ l) (some c)).col + 1 ≤ maxSignedCol := by
    unfold Document.ColumnsFit at hcols
    omega
  have hsigned := signedCol_of_le hfit
  rw [h.lies.stop, htext, EndPosition.of_concat, h.advance_eq htext, hsigned]
  simp

/-- Just past the last character. -/
theorem pastEnd_eq (h : s.Aligned before after) (hcols : s.document.ColumnsFit) {l : Text}
    {c : Char} (htext : s.text = l ++ [c]) :
    s.pastEnd = ⟨(s.document.start.advance (before ++ l) (some c)).line,
      (s.document.start.advance (before ++ l) (some c)).col + 1⟩ := by
  rw [pastEnd, h.stop_eq hcols htext]
  rfl

/-- Parts start where the document says that they do. -/
theorem deriveAt (h : s.Aligned before after) (hcols : s.document.ColumnsFit) {l m r : Text}
    (htext : s.text = l ++ m ++ r) {p : Position}
    (hp : p = s.positionAt (byteLength l) ∨ p = s.walkTo (byteLength l)) :
    (s.deriveAt (byteLength l) (byteLength (l ++ m)) p).Aligned (before ++ l) (r ++ after) := by
  have hplaced : s.WellPlaced := ⟨before, after, h.lies⟩
  have htext' : s.text = l ++ (m ++ r) := by rw [htext, List.append_assoc]
  refine ⟨h.lies.deriveAt htext p, ?_, ?_⟩
  · rw [text_deriveAt h.lies htext]
    intro hm
    -- A part with characters does not start at the end, so a walk leads to its start.
    have hwalk : p = s.walkTo (byteLength l) := by
      rcases hp with rfl | rfl
      · exact positionAt_eq_walkTo hplaced htext' (.inl (by simp [hm]))
      · rfl
    change p = s.document.start.advance (before ++ l) m.head?
    rw [hwalk, h.walkTo_eq htext' (by simp [htext', hm]), List.head?_append]
    obtain ⟨c, m', rfl⟩ := List.exists_cons_of_ne_nil hm
    rfl
  · -- The part is empty, and what counts is how it was cut out.
    rw [text_deriveAt h.lies htext]
    rintro rfl
    change EmptyStart s.document.start (before ++ l) p
    rw [List.nil_append] at htext'
    by_cases hs : s.text = []
    · -- An empty segment has itself as its only part.
      obtain ⟨rfl, rfl⟩ := List.append_eq_nil_iff.mp (htext'.symm.trans hs)
      have hwalk : p = s.start := by
        rcases hp with rfl | rfl
        · rw [positionAt_eq_walkTo hplaced htext' (.inr hs), Segment.walkTo_eq htext']
          rfl
        · rw [Segment.walkTo_eq htext']
          rfl
      rw [hwalk, List.append_nil]
      exact h.emptyStart hs
    · have hwalk := h.walkTo_eq htext' hs
      rcases hp with rfl | rfl
      · by_cases hr : r = []
        · -- The end of a segment that has characters is just past the last of them.
          rw [hr, List.append_nil] at htext'
          rw [← htext', positionAt_eq_pastEnd hplaced hs]
          rcases s.text.eq_nil_or_concat' with hnil | ⟨b, c, hconcat⟩
          · exact absurd hnil hs
          · rw [h.pastEnd_eq hcols hconcat, hconcat]
            exact .inr ⟨before ++ b, c, by simp, .inl rfl⟩
        · -- Before the end, `derive` puts a part where a walk leads.
          rw [positionAt_eq_walkTo hplaced htext' (.inl hr), hwalk]
          exact emptyStart_advance _ _ _
      · -- The pieces of a split start where a walk leads.
        rw [hwalk]
        exact emptyStart_advance _ _ _

end Aligned

/-- All segments of a document start where it says that they do. -/
theorem Reachable.aligned {d : Document} (hs : Reachable d s) (hcols : d.ColumnsFit) :
    s.document = d ∧ ∃ before after, s.Aligned before after := by
  obtain ⟨-, hd, h⟩ := hs.preserves (P := fun s => ∃ before after, s.Aligned before after)
    ⟨[], [], ofDocument_aligned d⟩ fun s t _ hd ⟨before, after, h⟩ hpart => by
      obtain ⟨l, m, r, htext, p, hp, rfl⟩ := hpart
      exact ⟨before ++ l, r ++ after, h.deriveAt (by rw [hd]; exact hcols) htext hp⟩
  exact ⟨hd, h⟩

/-! ## Segments that have characters -/

namespace Aligned

/-- The first character is where the document says that it is. -/
theorem positionAt?_start (h : s.Aligned before after) (hne : s.text ≠ []) :
    s.document.positionAt? s.startOffset = some s.start := by
  obtain ⟨c, r, htext⟩ := List.exists_cons_of_ne_nil hne
  have hd : s.document.text = before ++ c :: (r ++ after) := by
    rw [h.lies.text, htext]
    simp
  rw [h.lies.startOffset, Document.positionAt?_eq hd, h.start hne, htext]
  rfl

/-- So is the last. -/
theorem positionAt?_stop (h : s.Aligned before after) (hcols : s.document.ColumnsFit) {l : Text}
    {c : Char} (htext : s.text = l ++ [c]) :
    ∃ q, s.document.positionAt? (s.startOffset + byteLength l) = some q ∧
      s.stop = ⟨q.line, q.col⟩ := by
  have hd : s.document.text = (before ++ l) ++ c :: after := by
    rw [h.lies.text, htext]
    simp
  refine ⟨_, ?_, h.stop_eq hcols htext⟩
  rw [h.lies.startOffset, ← Text.byteLength_append, Document.positionAt?_eq hd]

/-- Two segments at one place of a document are alike if they have characters. -/
theorem alike (ht : t.Aligned before after) (hs : s.Aligned before after)
    (hd : t.document = s.document) (hne : s.text ≠ []) : t.Alike s := by
  -- The same text is between the same two texts.
  have htext : t.text = s.text := by
    have h := ht.lies.text.symm.trans ((congrArg Document.text hd).trans hs.lies.text)
    exact List.append_cancel_left (List.append_cancel_right h)
  have hstart : t.start = s.start := by
    rw [ht.start (by rw [htext]; exact hne), hs.start hne, hd, htext]
  refine ⟨htext, congrArg Document.source hd, hstart, ?_⟩
  rw [ht.lies.stop, hs.lies.stop, hstart, htext]

/-- The part of the root at the offsets of a segment that has characters is alike to it. -/
theorem alike_substring_root (h : s.Aligned before after) (hcols : s.document.ColumnsFit)
    (hne : s.text ≠ []) :
    ∃ t, s.root.substring s.startOffset (s.startOffset + s.length) = .ok t ∧ t.Alike s := by
  have hroot : s.root.text = before ++ s.text ++ after := by
    rw [Segment.root, text_ofDocument, h.lies.text]
  have hoff : s.startOffset + s.length = byteLength (before ++ s.text) := by
    have hplaced : s.WellPlaced := ⟨before, after, h.lies⟩
    rw [hplaced.length_eq, h.lies.startOffset, Text.byteLength_append]
  have hlen : s.root.length = byteLength s.root.text :=
    (wellPlaced_ofDocument s.document).length_eq
  rw [hoff, h.lies.startOffset]
  refine ⟨_, substring_eq_ok_iff.mpr ⟨?_, rfl⟩, ?_⟩
  · rw [hlen, hroot]
    exact Span.inside_of_cut _ _ _
  · have ht := (ofDocument_aligned s.document).deriveAt hcols hroot (.inl rfl)
    rw [List.nil_append, List.append_nil] at ht
    exact ht.alike h rfl hne

end Aligned

/-- A segment that has characters starts at the position of its first and stops at that of its last,
as its document counts them. It is alike to the part of the root at its offsets. -/
theorem Reachable.positions_of_nonempty {d : Document} (hs : Reachable d s) (hcols : d.ColumnsFit)
    (hne : s.isEmpty = false) :
    d.positionAt? s.startOffset = some s.start ∧
      (∃ l c q, s.text = l ++ [c] ∧ d.positionAt? (s.startOffset + byteLength l) = some q ∧
        s.stop = ⟨q.line, q.col⟩) ∧
      ∃ t, s.root.substring s.startOffset (s.startOffset + s.length) = .ok t ∧ t.Alike s := by
  obtain ⟨rfl, before, after, h⟩ := hs.aligned hcols
  have htext : s.text ≠ [] := by
    intro hnil
    rw [WellPlaced.isEmpty_iff ⟨before, after, h.lies⟩ |>.mpr hnil] at hne
    exact Bool.noConfusion hne
  obtain ⟨l, c, hconcat⟩ : ∃ l c, s.text = l ++ [c] :=
    ⟨s.text.dropLast, s.text.getLast htext, (List.dropLast_concat_getLast htext).symm⟩
  obtain ⟨q, hq, hstop⟩ := h.positionAt?_stop hcols hconcat
  exact ⟨h.positionAt?_start htext, ⟨l, c, q, hconcat, hq, hstop⟩,
    h.alike_substring_root hcols htext⟩

/-! ## All segments -/

/-- What a segment of the document `d` is like, with or without characters. -/
structure Sound (d : Document) (s : Segment) : Prop where
  /-- It is one of the document's. -/
  document : s.document = d
  /-- Its offsets are in order. -/
  offsets_le : s.startOffset ≤ s.stopOffset
  /-- They are offsets of the document. -/
  stopOffset_le : s.stopOffset ≤ byteLength d.text
  /-- It starts at a boundary. -/
  startBoundary : isBoundary d.text s.startOffset
  /-- It stops at a boundary. -/
  stopBoundary : isBoundary d.text s.stopOffset
  /-- It stops where its text leads from its start. -/
  stop : s.stop = .of s.start s.text
  /-- It does not start before the document. -/
  line_le : d.start.line ≤ s.start.line
  /-- It does not stop on a line before its start. -/
  start_le_stop : s.start.line ≤ s.stop.line
  /-- It stops on a line that the document has. -/
  stop_le : s.stop.line ≤ d.start.line + (LineBreak.spans d.text).length
  /-- Only on the line of its start can its stop be before the first column. -/
  stop_nonneg : s.start.line < s.stop.line → 0 ≤ s.stop.col
  /-- It is empty exactly when it stops one column before its start. -/
  isEmpty_iff : s.isEmpty = true ↔ s.stop.line = s.start.line ∧ s.stop.col = s.start.col - 1
  /-- An empty segment at the start of the document starts with it. -/
  start_zero : s.isEmpty = true → s.startOffset = 0 → s.start = d.start
  /-- An empty segment behind a character starts just past it, or on the next line if the character
  is half of a line break or a whole one. -/
  start_behind : s.isEmpty = true → ∀ l c r, d.text = l ++ c :: r →
    s.startOffset = byteLength (l ++ [c]) → ∃ q, d.positionAt? (byteLength l) = some q ∧
      (s.start = ⟨q.line, q.col + 1⟩ ∨ (c = '\n' ∨ c = '\r') ∧ s.start = ⟨q.line + 1, 0⟩)

namespace Aligned

/-- A segment does not start before its document. -/
theorem line_le (h : s.Aligned before after) : s.document.start.line ≤ s.start.line := by
  by_cases hne : s.text = []
  · exact (h.emptyStart hne).line_le
  · rw [h.start hne]
    exact Position.line_le_advance _ _ _

/-- A segment stops on its line or on a later one, and there not before the first column. -/
theorem start_le_stop (h : s.Aligned before after) (hcols : s.document.ColumnsFit) :
    s.start.line ≤ s.stop.line ∧ (s.start.line < s.stop.line → 0 ≤ s.stop.col) := by
  rcases s.text.eq_nil_or_concat' with hnil | ⟨l, c, hconcat⟩
  · rw [h.lies.stop, hnil, EndPosition.of_nil]
    exact ⟨Nat.le_refl _, fun hlt => absurd hlt (Nat.lt_irrefl _)⟩
  · have hline : s.stop.line = (s.start.advance l (some c)).line := by
      rw [h.lies.stop, hconcat, EndPosition.of_concat]
    refine ⟨?_, fun _ => ?_⟩
    · rw [hline]
      exact Position.line_le_advance _ _ _
    · rw [h.stop_eq hcols hconcat]
      exact Int.natCast_nonneg _

/-- A segment stops on a line that its document has. -/
theorem stop_le (h : s.Aligned before after) (hcols : s.document.ColumnsFit) :
    s.stop.line ≤ s.document.start.line + (LineBreak.spans s.document.text).length := by
  rw [← LineBreak.line_advance_eq, h.lies.text]
  rcases s.text.eq_nil_or_concat' with hnil | ⟨l, c, hconcat⟩
  · rw [h.lies.stop, hnil, EndPosition.of_nil, List.append_nil]
    exact (h.emptyStart hnil).line_le_end after
  · rw [h.stop_eq hcols hconcat, hconcat]
    have hle := Position.line_advance_le s.document.start (before ++ l) (c :: after)
    simpa using hle

/-- The column of a start is at most as many characters on as come before the segment. -/
theorem start_col_le (h : s.Aligned before after) :
    s.start.col ≤ s.document.start.col + before.length := by
  by_cases hne : s.text = []
  · exact (h.emptyStart hne).col_le
  · rw [h.start hne]
    exact Position.col_advance_le _ _ _

/-- The column of a start fits. -/
theorem col_le (h : s.Aligned before after) (hcols : s.document.ColumnsFit) :
    s.start.col ≤ maxSignedCol := by
  have hcol := h.start_col_le
  have hlen : before.length ≤ s.document.text.length := by
    rw [h.lies.text]
    simp only [List.length_append]
    omega
  unfold Document.ColumnsFit at hcols
  omega

/-- A segment is empty exactly when it stops one column before its start. -/
theorem isEmpty_iff (h : s.Aligned before after) (hcols : s.document.ColumnsFit) :
    s.isEmpty = true ↔ s.stop.line = s.start.line ∧ s.stop.col = s.start.col - 1 := by
  rw [WellPlaced.isEmpty_iff ⟨before, after, h.lies⟩]
  rcases s.text.eq_nil_or_concat' with hnil | ⟨l, c, hconcat⟩
  · -- The column of its start fits, so one less is what the stop has.
    refine iff_of_true hnil ?_
    rw [h.lies.stop, hnil, EndPosition.of_nil, signedCol_of_le (h.col_le hcols)]
    exact ⟨rfl, rfl⟩
  · -- On the line of its start, the last character is not before the first.
    refine iff_of_false (by simp [hconcat]) ?_
    rintro ⟨hline, hcol⟩
    rw [h.stop_eq hcols hconcat, ← h.advance_eq hconcat] at hline hcol
    have hlen := Position.col_advance_of_line_eq hline
    simp only at hcol
    omega

/-- An empty segment behind a character starts just past it, or on the next line if the character
is half of a line break or a whole one. -/
theorem start_behind (h : s.Aligned before after) (hnil : s.text = []) {l r : Text} {c : Char}
    (htext : s.document.text = l ++ c :: r) (hoff : s.startOffset = byteLength (l ++ [c])) :
    ∃ q, s.document.positionAt? (byteLength l) = some q ∧
      (s.start = ⟨q.line, q.col + 1⟩ ∨ (c = '\n' ∨ c = '\r') ∧ s.start = ⟨q.line + 1, 0⟩) := by
  refine ⟨_, Document.positionAt?_eq htext, ?_⟩
  -- The text before the segment is cut at its offset in one way only.
  have hbefore : before = l ++ [c] := by
    have hcut : before ++ (s.text ++ after) = (l ++ [c]) ++ r := by
      rw [← List.append_assoc, ← h.lies.text, htext]
      simp
    exact (Text.append_inj_of_byteLength hcut (h.lies.startOffset.symm.trans hoff)).1
  rcases h.emptyStart hnil with ⟨hzero, -⟩ | ⟨b, c', hb, hstart⟩
  · simp [hzero] at hbefore
  · obtain ⟨rfl, hc⟩ := List.append_inj' (hb.symm.trans hbefore) rfl
    obtain rfl : c' = c := by simpa using hc
    exact hstart

end Aligned

/-- Whatever operations lead to it, a segment is sound. -/
theorem Reachable.sound {d : Document} (hs : Reachable d s) (hcols : d.ColumnsFit) :
    s.Sound d := by
  obtain ⟨rfl, before, after, h⟩ := hs.aligned hcols
  have hplaced : s.WellPlaced := ⟨before, after, h.lies⟩
  obtain ⟨hline, hcol⟩ := h.start_le_stop hcols
  refine
    { document := rfl
      offsets_le := ?_
      stopOffset_le := ?_
      startBoundary := ?_
      stopBoundary := ?_
      stop := h.lies.stop
      line_le := h.line_le
      start_le_stop := hline
      stop_le := h.stop_le hcols
      stop_nonneg := hcol
      isEmpty_iff := h.isEmpty_iff hcols
      start_zero := ?_
      start_behind := fun he l c r => h.start_behind (hplaced.isEmpty_iff.mp he) }
  · -- The offsets count the texts before the segment and before what follows it.
    rw [h.lies.startOffset, h.lies.stopOffset, Text.byteLength_append]
    exact Nat.le_add_right _ _
  · rw [h.lies.stopOffset, h.lies.text, Text.byteLength_append (before ++ s.text)]
    exact Nat.le_add_right _ _
  · rw [h.lies.startOffset, h.lies.text, List.append_assoc]
    exact Text.isBoundary_append _ _
  · rw [h.lies.stopOffset, h.lies.text]
    exact Text.isBoundary_append _ _
  · -- Nothing comes before a segment at offset zero.
    intro he hzero
    rw [h.lies.startOffset, Text.byteLength_eq_zero] at hzero
    rcases h.emptyStart (hplaced.isEmpty_iff.mp he) with ⟨-, hstart⟩ | ⟨b, c, hb, -⟩
    · exact hstart
    · simp [hb] at hzero

end Segment

end SourceText
