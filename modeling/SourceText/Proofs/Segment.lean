import Mathlib.Data.List.Basic
import Mathlib.Tactic.SplitIfs
import SourceText.Proofs.Position
import SourceText.Proofs.Spans
import SourceText.Segment.Character

/-!
# Where segments lie

A segment is well placed when its document's text is `before ++ s.text ++ after`, its offsets count
the bytes of `before` and of `before ++ s.text`, and its end is that of its text walked from its
start (`Segment.LiesBetween`). The root is, and so is every part that is cut out of a segment that
is (`LiesBetween.deriveAt`).

All operations make their results in a few ways. `IsPart s t` says that `t` is cut out of `s` and
that its start is where `derive` puts it, or where a walk through `s` leads. The second is how
pieces of a split are found; `tail`, `substring`, `charSegmentAt`, `trim` and the neighbours of a
segment are derived from the segment or from its root (`IsCut`).
-/

namespace SourceText.Segment

open Text (byteLength isBoundary)

/-! ## Placement -/

/-- The segment is the part of its document between `before` and `after`. -/
structure LiesBetween (s : Segment) (before after : Text) : Prop where
  /-- The document's text, with the segment's in the middle. -/
  text : s.document.text = before ++ s.text ++ after
  /-- The segment starts behind `before`. -/
  startOffset : s.startOffset = byteLength before
  /-- It stops behind its text. -/
  stopOffset : s.stopOffset = byteLength (before ++ s.text)
  /-- Its end is that of its text. -/
  stop : s.stop = .of s.start s.text

/-- The segment is a part of its document. -/
def WellPlaced (s : Segment) : Prop := ∃ before after, s.LiesBetween before after

/-- The text of a root is that of its document. -/
@[simp] theorem text_ofDocument (d : Document) : (ofDocument d).text = d.text := by
  have h := Text.slice_append [] d.text []
  rw [List.nil_append, List.append_nil] at h
  exact h

/-- A root is the whole of its document. -/
theorem ofDocument_liesBetween (d : Document) : (ofDocument d).LiesBetween [] [] where
  text := by rw [text_ofDocument, List.nil_append, List.append_nil]; rfl
  startOffset := rfl
  stopOffset := by rw [text_ofDocument]; rfl
  stop := by rw [text_ofDocument]; rfl

/-- The root lies between nothing and nothing. -/
theorem wellPlaced_ofDocument (d : Document) : (ofDocument d).WellPlaced :=
  ⟨[], [], ofDocument_liesBetween d⟩

namespace WellPlaced

variable {s : Segment}

/-- The length is that of the text. -/
theorem length_eq (hs : s.WellPlaced) : s.length = byteLength s.text := by
  obtain ⟨before, after, h⟩ := hs
  rw [length, h.startOffset, h.stopOffset, Text.byteLength_append, Nat.add_sub_cancel_left]

/-- A segment is empty when its text is. -/
theorem isEmpty_iff (hs : s.WellPlaced) : s.isEmpty = true ↔ s.text = [] := by
  obtain ⟨before, after, h⟩ := hs
  rw [isEmpty, beq_iff_eq, h.startOffset, h.stopOffset, Text.byteLength_append,
    ← Text.byteLength_eq_zero]
  omega

end WellPlaced

/-! ## Ranges -/

/-- A range is accepted when it lies between boundaries of the text. -/
theorem checkRange_eq_ok_iff {s : Segment} {start stop : Nat} :
    s.checkRange start stop = .ok () ↔ (⟨start, stop⟩ : Span).Inside s.text 0 s.length := by
  unfold checkRange
  split_ifs with h1 h2 h3
  · -- The offsets are not in order, or not both in the segment.
    refine iff_of_false (by simp) fun h => ?_
    have hle := h.le
    have hhigh := h.le_high
    simp only at hle hhigh
    omega
  · exact iff_of_true rfl ⟨h2, h3, Nat.zero_le _, by simp only; omega, by simp only; omega⟩
  · exact iff_of_false (by simp) fun h => h3 h.stop
  · exact iff_of_false (by simp) fun h => h2 h.start

/-- The part between two offsets is found when they are boundaries in order. -/
theorem substring_eq_ok_iff {s t : Segment} {start stop : Nat} :
    s.substring start stop = .ok t ↔
      (⟨start, stop⟩ : Span).Inside s.text 0 s.length ∧ s.derive start stop = t := by
  rw [← checkRange_eq_ok_iff, substring]
  cases s.checkRange start stop with
  | error e => simp [Except.map]
  | ok u => simp [Except.map]

/-! ## Parts -/

/-- The text of a part. -/
theorem text_deriveAt {s : Segment} {before after : Text} (hs : s.LiesBetween before after)
    {l m r : Text} (h : s.text = l ++ m ++ r) (p : Position) :
    (s.deriveAt (byteLength l) (byteLength (l ++ m)) p).text = m := by
  change Text.slice s.document.text (s.startOffset + byteLength l)
    (s.startOffset + byteLength (l ++ m)) = m
  have hslice := Text.slice_append (before ++ l) m (r ++ after)
  rw [hs.text, h, hs.startOffset, ← Text.byteLength_append, ← Text.byteLength_append]
  simpa [List.append_assoc] using hslice

/-- A segment derived from two cuts of the text holds what is between them. -/
theorem WellPlaced.text_derive {s : Segment} (hs : s.WellPlaced) {l m r : Text}
    (h : s.text = l ++ m ++ r) : (s.derive (byteLength l) (byteLength (l ++ m))).text = m := by
  obtain ⟨before, after, hs⟩ := hs
  exact text_deriveAt hs h _

/-- It is what the span covers in the text of the segment. -/
theorem text_deriveAt_eq_slice {s : Segment} (hs : s.WellPlaced) {span : Span} {low high : Nat}
    (h : span.Inside s.text low high) (p : Position) :
    (s.deriveAt span.start span.stop p).text = Text.slice s.text span.start span.stop := by
  obtain ⟨before, after, hlies⟩ := hs
  obtain ⟨l, m, r, htext, hl, hm⟩ := h.cut
  have hpart := text_deriveAt hlies htext p
  rw [hl, hm] at hpart
  rw [hpart, htext, ← hl, ← hm, Text.slice_append]

/-- A part of a segment is a part of the document. -/
theorem LiesBetween.deriveAt {s : Segment} {before after : Text} (hs : s.LiesBetween before after)
    {l m r : Text} (h : s.text = l ++ m ++ r) (p : Position) :
    (s.deriveAt (byteLength l) (byteLength (l ++ m)) p).LiesBetween (before ++ l) (r ++ after) where
  text := by
    rw [text_deriveAt hs h]
    change s.document.text = _
    rw [hs.text, h]
    simp
  startOffset := by
    change s.startOffset + byteLength l = byteLength (before ++ l)
    rw [hs.startOffset, Text.byteLength_append]
  stopOffset := by
    change s.startOffset + byteLength (l ++ m) = _
    rw [text_deriveAt hs h, hs.startOffset, ← Text.byteLength_append, List.append_assoc]
  stop := by
    rw [text_deriveAt hs h]
    change EndPosition.of p (Text.slice s.text _ _) = EndPosition.of p m
    rw [h, Text.slice_append]

/-- The position that a walk from the start of the segment reaches at offset `n`. -/
def walkTo (s : Segment) (n : Nat) : Position :=
  ((Tracker.start s.text s.start).advanceTo n).position

/-- A walk through a segment leads where the walk over what it passes does. -/
theorem walkTo_eq {s : Segment} {l r : Text} (h : s.text = l ++ r) :
    s.walkTo (byteLength l) = s.start.advance l r.head? := by
  have hwalk := Tracker.advanceTo_past s.start [] l r
  rw [List.nil_append] at hwalk
  rw [walkTo, h, Tracker.start_eq_past, hwalk]
  rfl

/-- Before the end of a segment, and anywhere in an empty one, a part starts where a walk leads. -/
theorem positionAt_eq_walkTo {s : Segment} (hs : s.WellPlaced) {l r : Text} (h : s.text = l ++ r)
    (hr : r ≠ [] ∨ s.text = []) : s.positionAt (byteLength l) = s.walkTo (byteLength l) := by
  rw [positionAt, if_neg]
  · rfl
  · -- Otherwise the offset is the end of a segment that is not empty.
    rintro ⟨hlen, hne⟩
    rw [hs.isEmpty_iff] at hne
    rcases hr with hr | hr
    · rw [hs.length_eq, h, Text.byteLength_append] at hlen
      exact hr (Text.byteLength_eq_zero.mp (by omega))
    · exact hne hr

/-- A part at the start of a segment starts where the segment does, with or without characters. -/
theorem positionAt_zero {s : Segment} (hs : s.WellPlaced) : s.positionAt 0 = s.start := by
  have hwalk : s.walkTo 0 = s.start := walkTo_eq (l := []) rfl
  rw [← hwalk]
  exact positionAt_eq_walkTo hs (l := []) rfl (Classical.em _).symm

/-- At the end of a segment that is not empty a part starts just past the last character. -/
theorem positionAt_eq_pastEnd {s : Segment} (hs : s.WellPlaced) (h : s.text ≠ []) :
    s.positionAt (byteLength s.text) = s.pastEnd := by
  rw [positionAt, if_pos ⟨hs.length_eq.symm, fun he => h (hs.isEmpty_iff.mp he)⟩]

/-- The end of a segment leaves room for the column behind it. -/
theorem col_stop_lt {s : Segment} (hs : s.WellPlaced) :
    -1 ≤ s.stop.col ∧ s.stop.col < maxSignedCol := by
  obtain ⟨before, after, h⟩ := hs
  have hof : -1 ≤ (EndPosition.of s.start s.text).col ∧
      (EndPosition.of s.start s.text).col < maxSignedCol := by
    unfold EndPosition.of signedCol
    split <;> simp only <;> omega
  rwa [← h.stop] at hof

/-- The segment `t` is cut out of `s`, and its start is where `derive` puts it or where a walk
leads. -/
def IsPart (s t : Segment) : Prop :=
  ∃ l m r, s.text = l ++ m ++ r ∧
    ∃ p, (p = s.positionAt (byteLength l) ∨ p = s.walkTo (byteLength l)) ∧
      t = s.deriveAt (byteLength l) (byteLength (l ++ m)) p

/-- The segment `t` is what `derive` makes of a part of the text of `s`. -/
def IsCut (s t : Segment) : Prop :=
  ∃ l m r, s.text = l ++ m ++ r ∧ t = s.derive (byteLength l) (byteLength (l ++ m))

/-- What is derived is a part. -/
theorem IsCut.isPart {s t : Segment} (h : s.IsCut t) : s.IsPart t := by
  obtain ⟨l, m, r, htext, rfl⟩ := h
  exact ⟨l, m, r, htext, _, .inl rfl, rfl⟩

/-- What is derived from a span of the text is cut out there. -/
theorem isCut_derive {s : Segment} {span : Span} {low high : Nat}
    (h : span.Inside s.text low high) : s.IsCut (s.derive span.start span.stop) := by
  obtain ⟨l, m, r, htext, hl, hm⟩ := h.cut
  refine ⟨l, m, r, htext, ?_⟩
  rw [hl, hm]

/-- So is what is derived between two cuts. -/
theorem isCut_derive_of_cut {s : Segment} {l m r : Text} (h : s.text = l ++ m ++ r) :
    s.IsCut (s.derive (byteLength l) (byteLength (l ++ m))) :=
  ⟨l, m, r, h, rfl⟩

/-- Parts of a segment that is part of a document are part of it too. -/
theorem IsPart.wellPlaced {s t : Segment} (h : s.IsPart t) (hs : s.WellPlaced) : t.WellPlaced := by
  obtain ⟨before, after, hs⟩ := hs
  obtain ⟨l, m, r, htext, p, -, rfl⟩ := h
  exact ⟨before ++ l, r ++ after, hs.deriveAt htext p⟩

/-- What is cut out of a segment that is part of a document is part of it too. -/
theorem IsCut.wellPlaced {s t : Segment} (h : s.IsCut t) (hs : s.WellPlaced) : t.WellPlaced :=
  h.isPart.wellPlaced hs

/-- A part has the document of what it is cut out of. -/
theorem IsPart.document_eq {s t : Segment} (h : s.IsPart t) : t.document = s.document := by
  obtain ⟨l, m, r, -, p, -, rfl⟩ := h
  rfl

/-! ## The operations cut parts out -/

/-- What a range of offsets gives has been cut out. -/
theorem isCut_substring {s t : Segment} {start stop : Nat} (h : s.substring start stop = .ok t) :
    s.IsCut t := by
  obtain ⟨hinside, rfl⟩ := substring_eq_ok_iff.mp h
  exact isCut_derive hinside

/-- The empty segment at the end has been cut out. -/
theorem isCut_tail {s : Segment} (hs : s.WellPlaced) : s.IsCut s.tail := by
  have h := isCut_derive_of_cut (s := s) (l := s.text) (m := []) (r := []) (by simp)
  rw [List.append_nil, ← hs.length_eq] at h
  exact h

/-- The character at an offset follows a cut of the text. -/
theorem charAt_eq_ok {s : Segment} {n : Nat} {c : Char} (h : s.charAt n = .ok c) :
    ∃ l r, s.text = l ++ [c] ++ r ∧ byteLength l = n := by
  unfold charAt at h
  split_ifs at h with hn
  cases hc : Text.charAt? s.text n with
  | none => simp [hc] at h
  | some d =>
    obtain rfl : d = c := by simpa [hc] using h
    -- What follows the offset begins with the character.
    obtain ⟨rest, hdrop, hhead⟩ := Option.bind_eq_some_iff.mp hc
    obtain ⟨l, htext, hl⟩ := Text.drop?_eq_some_iff.mp hdrop
    obtain ⟨r, rfl⟩ := List.head?_eq_some_iff.mp hhead
    exact ⟨l, r, by simpa using htext, hl⟩

/-- The character at a cut. -/
theorem charAt_of_cut {s : Segment} (hs : s.WellPlaced) {l r : Text} {c : Char}
    (htext : s.text = l ++ c :: r) : s.charAt (byteLength l) = .ok c := by
  have hpos := c.utf8Size_pos
  have hlen : s.length = byteLength l + (c.utf8Size + byteLength r) := by
    rw [hs.length_eq, htext, Text.byteLength_append, Text.byteLength_cons]
  rw [charAt, if_neg (by omega), htext, Text.charAt?_append]
  rfl

/-- The character at a cut, as a segment. -/
theorem charSegmentAt_of_cut {s : Segment} (hs : s.WellPlaced) {l r : Text} {c : Char}
    (htext : s.text = l ++ c :: r) :
    s.charSegmentAt (byteLength l) =
      .ok (s.derive (byteLength l) (byteLength (l ++ [c]))) := by
  have hpos := c.utf8Size_pos
  have hlen : s.length = byteLength l + (c.utf8Size + byteLength r) := by
    rw [hs.length_eq, htext, Text.byteLength_append, Text.byteLength_cons]
  rw [charSegmentAt, if_neg (by omega), charAt_of_cut hs htext, Text.byteLength_append]
  rfl

/-- The segment of one character has been cut out. -/
theorem isCut_charSegmentAt {s t : Segment} (hs : s.WellPlaced) {n : Nat}
    (h : s.charSegmentAt n = .ok t) : s.IsCut t := by
  unfold charSegmentAt at h
  split_ifs at h with hn
  · obtain rfl : s.tail = t := Except.ok.inj h
    exact isCut_tail hs
  · cases hc : s.charAt n with
    | error e => simp [hc, Except.map] at h
    | ok c =>
      obtain ⟨l, r, htext, rfl⟩ := charAt_eq_ok hc
      have ht : s.derive (byteLength l) (byteLength l + c.utf8Size) = t := by
        simpa [hc, Except.map] using h
      rw [← ht]
      simpa using isCut_derive_of_cut htext

/-- The character behind a part of a document is the one that starts where the part stops. -/
theorem charAfter_of_cut {s : Segment} (hpart : s.isRoot = false) {l r : Text} {c : Char}
    (htext : s.document.text = l ++ c :: r) (hstop : s.stopOffset = byteLength l) :
    s.charAfter = s.root.derive (byteLength l) (byteLength (l ++ [c])) := by
  have hpos := c.utf8Size_pos
  have hlen := congrArg byteLength htext
  rw [Text.byteLength_append, Text.byteLength_cons] at hlen
  have hroot : s.root.text = l ++ c :: r := by rw [root, text_ofDocument, htext]
  have hchar := charSegmentAt_of_cut (s := s.root) (wellPlaced_ofDocument s.document) hroot
  have hinner : ¬ (s.isRoot = true ∨ byteLength s.document.text ≤ s.stopOffset) := by
    rw [hpart, hstop]
    simp only [Bool.false_eq_true, false_or]
    omega
  rw [charAfter, if_neg hinner, hstop, hchar]

/-- The character in front of a part of a document is the one that stops where the part starts. -/
theorem charBefore_of_cut {s : Segment} (hpart : s.isRoot = false) {l r : Text} {c : Char}
    (htext : s.document.text = l ++ c :: r) (hstart : s.startOffset = byteLength (l ++ [c])) :
    s.charBefore = s.root.derive (byteLength l) (byteLength (l ++ [c])) := by
  have hpos := c.utf8Size_pos
  have hoffset : s.startOffset = byteLength l + c.utf8Size := by
    rw [hstart, Text.byteLength_append]
    rfl
  have hroot : s.root.text = [] ++ (l ++ [c]) ++ r := by
    rw [root, text_ofDocument, htext]
    simp
  have hslice : Text.slice s.root.text 0 s.startOffset = l ++ [c] := by
    rw [hroot, hstart]
    exact Text.slice_append [] (l ++ [c]) r
  have hinner : ¬ (s.isRoot = true ∨ s.startOffset = 0) := by
    rw [hpart]
    simp only [Bool.false_eq_true, false_or]
    omega
  rw [charBefore, if_neg hinner, hslice]
  simp only [List.getLast?_concat]
  rw [hoffset, Nat.add_sub_cancel, ← hoffset, hstart]

/-- The character before a segment is a part of its root; where there is none, the empty segment at
the start is a part of the segment. -/
theorem isCut_charBefore {s : Segment} (hs : s.WellPlaced) :
    s.IsCut s.charBefore ∨ s.root.IsCut s.charBefore := by
  by_cases hedge : s.isRoot = true ∨ s.startOffset = 0
  · rw [charBefore, if_pos hedge]
    exact .inl (isCut_derive_of_cut (l := []) (m := []) (r := s.text) rfl)
  · obtain ⟨hpart, hstart⟩ := not_or.mp hedge
    obtain ⟨before, after, h⟩ := hs
    obtain rfl | ⟨l, c, rfl⟩ := before.eq_nil_or_concat'
    · exact absurd h.startOffset hstart
    · have htext : s.document.text = l ++ c :: (s.text ++ after) := by
        rw [h.text]
        simp
      rw [charBefore_of_cut (Bool.not_eq_true _ ▸ hpart) htext h.startOffset]
      exact .inr (isCut_derive_of_cut (r := s.text ++ after) (by
        rw [root, text_ofDocument, htext, List.append_assoc]
        rfl))

/-- The character after a segment is a part of its root; where there is none, the empty segment at
the end is a part of the segment. -/
theorem isCut_charAfter {s : Segment} (hs : s.WellPlaced) :
    s.IsCut s.charAfter ∨ s.root.IsCut s.charAfter := by
  unfold charAfter
  split_ifs
  · exact .inl (isCut_tail hs)
  · cases hc : s.root.charSegmentAt s.stopOffset with
    | error e => exact .inl (isCut_tail hs)
    | ok c => exact .inr (isCut_charSegmentAt (wellPlaced_ofDocument _) hc)

/-- What is left between the blanks at the edges is a range of the segment. In a segment of nothing
but blanks the first edge is behind the second, and then nothing is left. -/
theorem inside_trim {s : Segment} (hs : s.WellPlaced) :
    (⟨byteLength (s.text.takeWhile isTrimmed), max (byteLength (s.text.takeWhile isTrimmed))
      (s.length - byteLength (s.text.reverse.takeWhile isTrimmed))⟩ : Span).Inside
        s.text 0 s.length := by
  have hlen := hs.length_eq
  -- Both edges are cuts of the text.
  have hstart : isBoundary s.text (byteLength (s.text.takeWhile isTrimmed)) := by
    have h := Text.isBoundary_append (s.text.takeWhile isTrimmed) (s.text.dropWhile isTrimmed)
    rwa [List.takeWhile_append_dropWhile] at h
  have hcut : s.text =
      (s.text.reverse.dropWhile isTrimmed).reverse ++
        (s.text.reverse.takeWhile isTrimmed).reverse := by
    rw [← List.reverse_append, List.takeWhile_append_dropWhile, List.reverse_reverse]
  have hstop : isBoundary s.text
      (s.length - byteLength (s.text.reverse.takeWhile isTrimmed)) := by
    have h := Text.isBoundary_append (s.text.reverse.dropWhile isTrimmed).reverse
      (s.text.reverse.takeWhile isTrimmed).reverse
    rw [← hcut] at h
    have hbytes := congrArg byteLength hcut
    rw [Text.byteLength_append, Text.byteLength_reverse (s.text.reverse.takeWhile _)] at hbytes
    rwa [hlen, hbytes, Nat.add_sub_cancel]
  generalize byteLength (s.text.takeWhile isTrimmed) = start at hstart ⊢
  generalize s.length - byteLength (s.text.reverse.takeWhile isTrimmed) = stop at hstop ⊢
  refine ⟨hstart, ?_, Nat.zero_le _, Nat.le_max_left _ _, ?_⟩
  · rcases Nat.le_total start stop with h | h
    · rwa [Nat.max_eq_right h]
    · rwa [Nat.max_eq_left h]
  · rw [hlen]
    exact Nat.max_le.mpr
      ⟨Text.le_byteLength_of_isBoundary hstart, Text.le_byteLength_of_isBoundary hstop⟩

/-- A trimmed segment is the segment itself or a part of it. -/
theorem isCut_trim {s : Segment} (hs : s.WellPlaced) : s.trim = s ∨ s.IsCut s.trim := by
  unfold trim
  simp only
  split_ifs
  · exact .inl rfl
  · exact .inr (isCut_derive (inside_trim hs))

end SourceText.Segment
