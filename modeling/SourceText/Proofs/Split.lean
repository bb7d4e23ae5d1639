import SourceText.Proofs.LineBreak
import SourceText.Proofs.Search
import SourceText.Proofs.Segment
import SourceText.Segment.Split

/-!
# Pieces are parts

A split uses some of its separators, and the pieces are what lies between them. If the separators
are spans in order, so are the pieces (`Split.pieces_inOrder`), and the tracker that places them
stands, at each piece, where a walk from the start of the segment leads (`Split.locate_eq_map`). All
three kinds of separators are spans in order, so `split`, `splitText` and `lines` answer with parts
of the segment, or with the segment itself.
-/

namespace SourceText

open Text (byteLength)

namespace Split

/-! ## Pieces -/

/-- The separators in use are some of those that are given. -/
theorem used_sublist (limit : SplitLimit) (separators : List Span) :
    (used limit separators).Sublist separators := by
  cases limit with
  | keepTrailing => exact List.filter_sublist
  | dropTrailing => exact List.filter_sublist
  | atMost n => exact (List.take_sublist _ _).trans List.filter_sublist

/-- What lies between separators in order is in order. -/
theorem between_inOrder {text : Text} {low : Nat} {separators : List Span}
    (h : Span.InOrder text low separators) (hlow : Text.isBoundary text low) :
    Span.InOrder text low (between low (byteLength text) separators) := by
  induction separators generalizing low with
  | nil =>
    -- The last span reaches to the end of the text.
    exact ⟨⟨Nat.le_refl _, Text.le_byteLength_of_isBoundary hlow, hlow, by simp⟩, trivial⟩
  | cons s rest ih =>
    obtain ⟨⟨hle, hs, hstart, hstop⟩, hrest⟩ := h
    exact ⟨⟨Nat.le_refl _, hle, hlow, hstart⟩, (ih hrest hstop).mono hs⟩

/-- There is one more of what lies between separators than there are separators. -/
theorem length_between (start stop : Nat) (separators : List Span) :
    (between start stop separators).length = separators.length + 1 := by
  induction separators generalizing start with
  | nil => rfl
  | cons s rest ih => rw [between, List.length_cons, ih, List.length_cons]

/-- Dropping empty spans at the end leaves the spans before them. -/
theorem dropTrailingEmpty_sublist (spans : List Span) :
    (dropTrailingEmpty spans).Sublist spans := by
  induction spans with
  | nil => exact List.Sublist.slnil
  | cons s rest ih =>
    unfold dropTrailingEmpty
    -- A span is dropped only if it is empty and nothing behind it is left.
    cases hrest : dropTrailingEmpty rest with
    | nil =>
      simp only
      split_ifs
      · exact List.nil_sublist _
      · exact (List.nil_sublist rest).cons_cons s
    | cons t rest' =>
      rw [hrest] at ih
      exact ih.cons_cons s

/-- The pieces between separators in order are in order. -/
theorem pieces_inOrder {text : Text} {separators : List Span} (limit : SplitLimit)
    (h : Span.InOrder text 0 separators) :
    Span.InOrder text 0 (pieces (byteLength text) limit separators) := by
  have hbetween := between_inOrder h (by simp)
  cases limit with
  | keepTrailing => exact hbetween
  | dropTrailing => exact hbetween.sublist (dropTrailingEmpty_sublist _)
  | atMost n => exact hbetween

/-! ## Their places -/

/-- A tracker that has come past `l` places each of the spans behind it where a walk from the start
of the segment leads. -/
theorem locate_past_eq_map {s : Segment} {l r : Text} (htext : s.text = l ++ r) {spans : List Span}
    (h : Span.InOrder s.text (byteLength l) spans) :
    locate s (.past s.start l r) spans =
      spans.map fun p => s.deriveAt p.start p.stop (s.walkTo p.start) := by
  induction spans generalizing l r with
  | nil => rfl
  | cons p rest ih =>
    -- The tracker goes on over `m`, from the last cut to the start of this span.
    obtain ⟨m, x, r', rfl, rfl, hrest⟩ := h.exists_cut htext
    have hcut : s.text = (l ++ m) ++ (x ++ r') := by rw [htext, List.append_assoc]
    rw [locate, List.map_cons, Tracker.advanceTo_past, Segment.walkTo_eq hcut, ih hcut hrest]
    rfl

/-- The pieces are placed where walks from the start of the segment lead. -/
theorem locate_eq_map {s : Segment} {spans : List Span} (h : Span.InOrder s.text 0 spans) :
    locate s (.start s.text s.start) spans =
      spans.map fun p => s.deriveAt p.start p.stop (s.walkTo p.start) := by
  rw [Tracker.start_eq_past]
  exact locate_past_eq_map rfl h

/-- The occurrences of a character behind `l` are spans of the text in order. -/
theorem occurrences_inOrder (c : Char) (l t : Text) :
    Span.InOrder (l ++ t) (byteLength l) (occurrences c (byteLength l) t) := by
  induction t generalizing l with
  | nil => trivial
  | cons a t ih =>
    have h := ih (l ++ [a])
    rw [Text.byteLength_append] at h
    unfold occurrences
    simp only
    split_ifs
    · exact h.cons_middle rfl
    · rw [List.append_assoc] at h
      exact h.mono (Nat.le_add_right _ _)

end Split

namespace Segment

/-! ## Splits -/

/-- The piece of a segment at a span of its text. -/
def piece (s : Segment) (p : Span) : Segment := s.deriveAt p.start p.stop (s.walkTo p.start)

/-- A piece reads as its span does in the text. -/
theorem text_piece {s : Segment} (hs : s.WellPlaced) {p : Span} {low high : Nat}
    (hin : p.Inside s.text low high) : (s.piece p).text = Text.slice s.text p.start p.stop :=
  text_deriveAt_eq_slice hs hin _

/-- A piece at a span inside the text is a part. -/
theorem isPart_piece {s : Segment} {p : Span} {low high : Nat} (hin : p.Inside s.text low high) :
    s.IsPart (s.piece p) := by
  obtain ⟨l, m, r, htext, hl, hm⟩ := hin.cut
  refine ⟨l, m, r, htext, _, .inr rfl, ?_⟩
  rw [hl, hm]
  rfl

/-- A segment in which no separator is used is not split. -/
theorem splitAround_eq_self {s : Segment} {separators : List Span} {limit : SplitLimit}
    (h : Split.used limit separators = []) : s.splitAround separators limit = [s] := by
  rw [splitAround, h]

/-- A segment in which separators in order are used is split into the pieces that lie between
them. -/
theorem splitAround_eq_map {s : Segment} (hs : s.WellPlaced) {separators : List Span}
    {limit : SplitLimit} (hsep : Span.InOrder s.text 0 separators)
    (h : Split.used limit separators ≠ []) :
    s.splitAround separators limit =
      (Split.pieces (byteLength s.text) limit (Split.used limit separators)).map s.piece := by
  have hpieces := Split.pieces_inOrder limit (hsep.sublist (Split.used_sublist limit separators))
  obtain ⟨separator, rest, hcons⟩ := List.exists_cons_of_ne_nil h
  rw [hcons] at hpieces
  rw [splitAround, hcons]
  simp only
  rw [hs.length_eq, Split.locate_eq_map hpieces]
  rfl

/-- What a segment is split into around separators in order is the segment itself, or a piece at a
span inside its text. -/
theorem eq_or_exists_of_mem_splitAround {s t : Segment} (hs : s.WellPlaced)
    {separators : List Span} {limit : SplitLimit} (hsep : Span.InOrder s.text 0 separators)
    (ht : t ∈ s.splitAround separators limit) :
    t = s ∨ ∃ p : Span, p.Inside s.text 0 (byteLength s.text) ∧ t = s.piece p := by
  have hused := hsep.sublist (Split.used_sublist limit separators)
  by_cases hnone : Split.used limit separators = []
  · rw [splitAround_eq_self hnone] at ht
    exact .inl (List.mem_singleton.mp ht)
  · rw [splitAround_eq_map hs hsep hnone] at ht
    obtain ⟨p, hp, rfl⟩ := List.mem_map.mp ht
    exact .inr ⟨p, (Split.pieces_inOrder limit hused).inside hp, rfl⟩

/-- Splitting around separators in order gives the segment itself or parts of it. -/
theorem isPart_splitAround {s t : Segment} (hs : s.WellPlaced) {separators : List Span}
    {limit : SplitLimit} (hsep : Span.InOrder s.text 0 separators)
    (ht : t ∈ s.splitAround separators limit) : t = s ∨ s.IsPart t := by
  rcases eq_or_exists_of_mem_splitAround hs hsep ht with rfl | ⟨p, hin, rfl⟩
  · exact .inl rfl
  · exact .inr (isPart_piece hin)

/-- Around matches of a pattern, a segment is split into parts, or left as it is. -/
theorem isPart_split {s t : Segment} (hs : s.WellPlaced) {p : Pattern} {limit : SplitLimit}
    (ht : t ∈ s.split p limit) : t = s ∨ s.IsPart t :=
  isPart_splitAround hs (p.allMatches_inOrder s.text) ht

/-- The same holds of a separator that is given as a text. -/
theorem isPart_splitText {s t : Segment} (hs : s.WellPlaced) {separator : Text}
    {limit : SplitLimit} {pieces : List Segment} (h : s.splitText separator limit = .ok pieces)
    (ht : t ∈ pieces) : t = s ∨ s.IsPart t := by
  unfold splitText at h
  cases hlit : Split.literal? separator with
  | some c =>
    obtain rfl : s.splitAround (Split.occurrences c 0 s.text) limit = pieces := by
      simpa [hlit] using h
    exact isPart_splitAround hs (Split.occurrences_inOrder c [] s.text) ht
  | none =>
    cases hp : Pattern.compile {} separator with
    | error e => simp [hlit, hp, Except.map] at h
    | ok p =>
      obtain rfl : s.split p limit = pieces := by simpa [hlit, hp, Except.map] using h
      exact isPart_split hs ht

/-- The same holds of lines. -/
theorem isPart_lines {s t : Segment} (hs : s.WellPlaced) (ht : t ∈ s.lines) :
    t = s ∨ s.IsPart t :=
  isPart_splitAround hs (LineBreak.spans_inOrder s.text) ht

end Segment

end SourceText
