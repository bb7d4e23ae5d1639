import SourceText.Proofs.Machine.Locator
import SourceText.Proofs.Reachable

/-!
# Segments on the machine

The operations on segments as the machine takes them, number by number: offsets are added and
subtracted, positions are found by scanning, and where something should not happen there is a fault.

A segment of a document in memory (`Segment.InMemory`) has offsets that can be counted, so what is
read off the text is what the operation answers. A part is placed, and the machine may not be able
to count to its position. It comes to the part all the same, or meets a number that is no count; and
it is sure to come to it if it can count to each character of the segment
(`Segment.CharsCounted`, `Machine.derive_comesTo`). A segment fits if the machine can count to the
end of its document (`Segment.Fits`). Then it can count to each character, and parts fit too
(`Segment.IsPart.fits`).
-/

namespace SourceText

open Text (byteLength isBoundary)

namespace Machine.Fits

variable {p : Position} {l m r : Text}

/-- The position that a walk comes to is one from which what follows can be counted. -/
theorem advance (h : Fits (l ++ m ++ r) p) : Fits m (p.advance l (m ++ r).head?) where
  bytes := by
    have hbytes := h.bytes
    simp only [Text.byteLength_append] at hbytes
    omega
  line := by
    have hline := h.line
    have hall := LineBreak.line_advance_eq p (l ++ (m ++ r))
    have hrest := LineBreak.line_advance_eq (p.advance l (m ++ r).head?) (m ++ r)
    have hle := LineBreak.length_spans_append_le m r
    rw [Position.advance_append, Option.or_none] at hall
    rw [List.append_assoc] at hline
    omega
  col := by
    rintro l' r' rfl
    have hcol := h.col (l ++ l') (r' ++ r) (by simp)
    rw [Position.advance_append, ← List.head?_append, ← List.append_assoc] at hcol
    cases r' with
    | cons c r' => exact hcol
    | nil => exact Nat.le_trans (LineBreak.col_advance_none_le _ _ _) hcol

end Machine.Fits

/-- The coordinates of a document can be counted. -/
def Document.Fits (d : Document) : Prop := Machine.Fits d.text d.start

namespace Segment

/-- The segment is a part of its document, which can be in memory. -/
structure InMemory (s : Segment) : Prop where
  /-- It is a part of its document. -/
  placed : s.WellPlaced
  /-- The document has no more bytes than a text in memory. -/
  bytes : byteLength s.document.text ≤ maxSignedCol

/-- The machine can count to each character of the segment. -/
def CharsCounted (s : Segment) : Prop := Machine.CharsCounted s.text s.start

/-- The segment is a part of its document, and the coordinates of both can be counted. -/
structure Fits (s : Segment) : Prop where
  /-- It is a part of its document. -/
  placed : s.WellPlaced
  /-- The document can be counted from its start. -/
  document : s.document.Fits
  /-- So can the segment. -/
  own : Machine.Fits s.text s.start

variable {s t : Segment}

namespace InMemory

/-- The text of a segment in memory is no longer than that of its document. -/
theorem byteLength_le (hs : s.InMemory) : byteLength s.text ≤ maxSignedCol := by
  obtain ⟨before, after, h⟩ := hs.placed
  have hbytes := congrArg byteLength h.text
  have hdocument := hs.bytes
  simp only [Text.byteLength_append] at hbytes
  omega

/-- The root of a document in memory is in memory. -/
theorem root (hs : s.InMemory) : s.root.InMemory := ⟨wellPlaced_ofDocument _, hs.bytes⟩

end InMemory

/-- A part of a segment in memory is in memory. -/
theorem IsPart.inMemory (hs : s.InMemory) (h : s.IsPart t) : t.InMemory :=
  ⟨h.wellPlaced hs.placed, by rw [h.document_eq]; exact hs.bytes⟩

/-- A segment that fits is in memory. -/
theorem Fits.inMemory (hs : s.Fits) : s.InMemory := ⟨hs.placed, hs.document.bytes⟩

/-- The machine can count to each character of a segment that fits. -/
theorem Fits.charsCounted (hs : s.Fits) : s.CharsCounted := hs.own.charsCounted

/-- The root fits if the document does. -/
theorem fits_ofDocument {d : Document} (hd : d.Fits) : (ofDocument d).Fits where
  placed := wellPlaced_ofDocument d
  document := hd
  own := by
    rw [text_ofDocument]
    exact hd

/-- The root of a document that fits does so too. -/
theorem Fits.root (hs : s.Fits) : s.root.Fits := fits_ofDocument hs.document

/-- The column past the end of a segment can be counted. -/
theorem col_pastEnd_le (hs : s.WellPlaced) : s.pastEnd.col ≤ maxCount := by
  obtain ⟨hlow, hhigh⟩ := col_stop_lt hs
  have hcount := Machine.maxCount_eq
  unfold Segment.pastEnd
  simp only
  omega

/-- The position past the end of a segment can be counted. -/
theorem Fits.pastEnd (hs : s.Fits) (hne : s.text ≠ []) : Machine.Fits [] s.pastEnd := by
  obtain ⟨before, after, h⟩ := hs.placed
  have hline := hs.own.line
  obtain ⟨l, c, hlc⟩ := List.eq_nil_or_concat s.text |>.resolve_left hne
  rw [List.concat_eq_append] at hlc
  rw [hlc] at hline
  have hlines := LineBreak.line_advance_eq s.start (l ++ [c])
  have hle := Position.line_advance_le s.start l [c]
  have hstop := h.stop
  rw [hlc, EndPosition.of_concat] at hstop
  simp only [List.head?_cons] at hle
  refine ⟨Nat.zero_le _, ?_, ?_⟩
  · unfold Segment.pastEnd
    rw [hstop]
    simp only [LineBreak.spans, LineBreak.utf8_nil, LineBreak.scan, List.length_nil]
    omega
  · intro l' r' htext
    obtain ⟨rfl, rfl⟩ := List.append_eq_nil_iff.mp htext.symm
    exact col_pastEnd_le hs.placed

/-- What can be derived at a cut of a segment that fits can be counted. -/
theorem Fits.positionAt (hs : s.Fits) {l m r : Text} (htext : s.text = l ++ m ++ r) :
    Machine.Fits m (s.positionAt (byteLength l)) := by
  have hown := hs.own
  by_cases hr : m ++ r ≠ [] ∨ s.text = []
  · rw [List.append_assoc] at htext
    rw [positionAt_eq_walkTo hs.placed htext hr, walkTo_eq htext]
    rw [htext, ← List.append_assoc] at hown
    exact hown.advance
  · -- The cut is the end of a segment that is not empty.
    obtain ⟨hnil, hne⟩ := not_or.mp hr
    obtain ⟨rfl, rfl⟩ := List.append_eq_nil_iff.mp (Decidable.not_not.mp hnil)
    rw [List.append_nil, List.append_nil] at htext
    rw [← htext, positionAt_eq_pastEnd hs.placed hne]
    exact hs.pastEnd hne

/-- At a cut of a segment that the machine can count to the characters of, it can count to those of
what is derived. -/
theorem CharsCounted.positionAt (hs : s.WellPlaced) (h : s.CharsCounted) {l m r : Text}
    (htext : s.text = l ++ m ++ r) : Machine.CharsCounted m (s.positionAt (byteLength l)) := by
  by_cases hr : m ++ r = []
  · obtain ⟨rfl, rfl⟩ := List.append_eq_nil_iff.mp hr
    rw [List.append_nil, List.append_nil] at htext
    refine .nil ?_
    by_cases hnil : s.text = []
    · rw [← htext, hnil, Text.byteLength_nil, positionAt_zero hs]
      exact h.col
    · rw [← htext, positionAt_eq_pastEnd hs hnil]
      exact col_pastEnd_le hs
  · unfold CharsCounted at h
    rw [htext] at h
    rw [List.append_assoc] at htext
    rw [positionAt_eq_walkTo hs htext (.inl hr), walkTo_eq htext]
    exact h.advance hr

/-- Parts of a segment that fits do so too. -/
theorem IsPart.fits (hs : s.Fits) (h : s.IsPart t) : t.Fits := by
  refine ⟨h.wellPlaced hs.placed, by rw [h.document_eq]; exact hs.document, ?_⟩
  obtain ⟨before, after, hlies⟩ := hs.placed
  obtain ⟨l, m, r, htext, p, hp, rfl⟩ := h
  rw [text_deriveAt hlies htext]
  change Machine.Fits m p
  rcases hp with rfl | rfl
  · exact hs.positionAt htext
  · have hown := hs.own
    rw [htext] at hown
    rw [List.append_assoc] at htext
    rw [walkTo_eq htext]
    exact hown.advance

/-- The machine can count to the start of a segment that fits. -/
theorem Fits.start_counted (hs : s.Fits) : s.start.Counted where
  line := Nat.le_trans (Nat.le_add_right _ _) hs.own.line
  col := hs.own.col [] s.text rfl

/-- Every segment of a document in memory is in memory. -/
theorem Reachable.inMemory {d : Document} (hbytes : byteLength d.text ≤ maxSignedCol)
    (h : Reachable d s) : s.InMemory := by
  obtain ⟨hplaced, hdocument⟩ := h.wellPlaced
  exact ⟨hplaced, by rw [hdocument]; exact hbytes⟩

/-- All segments of a document fit if the document does. -/
theorem Reachable.fits {d : Document} (hd : d.Fits) (h : Reachable d s) : s.Fits := by
  obtain ⟨hs, hdocument, hown⟩ := h.preserves (P := fun s => Machine.Fits s.text s.start)
    (fits_ofDocument hd).own fun s t hs hdocument hown hpart =>
      (hpart.fits ⟨hs, by rw [hdocument]; exact hd, hown⟩).own
  exact ⟨hs, by rw [hdocument]; exact hd, hown⟩

/-- A part is as long as the offsets are apart that it is derived for. -/
theorem length_derive (s : Segment) (start stop : Nat) :
    (s.derive start stop).length = stop - start := by
  simp only [length, derive, deriveAt]
  omega

/-- At every boundary there is a character or the end. -/
theorem exists_charSegmentAt (hs : s.WellPlaced) {n : Nat} (h : isBoundary s.text n) :
    ∃ t, s.charSegmentAt n = .ok t := by
  obtain ⟨l, r, htext, rfl⟩ := Text.isBoundary_iff.mp h
  cases r with
  | nil =>
    have hlength := hs.length_eq
    rw [htext, List.append_nil] at hlength
    exact ⟨_, if_pos hlength.symm⟩
  | cons c r => exact ⟨_, charSegmentAt_of_cut hs htext⟩

/-- At no other offset is there one. -/
theorem isBoundary_of_charSegmentAt (hs : s.WellPlaced) {n : Nat}
    (h : s.charSegmentAt n = .ok t) : isBoundary s.text n := by
  unfold charSegmentAt at h
  split_ifs at h with hn
  · rw [hn, hs.length_eq]
    exact Text.isBoundary_byteLength s.text
  · cases hc : s.charAt n with
    | error e =>
      rw [hc] at h
      cases h
    | ok c =>
      obtain ⟨l, r, htext, hl⟩ := charAt_eq_ok hc
      exact Text.isBoundary_iff.mpr ⟨l, [c] ++ r, by rw [htext, List.append_assoc], hl⟩

end Segment

namespace Machine

/-! ## Offsets and positions -/

/-- The characters of a segment. -/
def text (s : Segment) : Machine Text := slice s.document.text s.startOffset s.stopOffset

/-- The length in bytes. -/
def length (s : Segment) : Machine Nat := sub s.stopOffset s.startOffset

/-- Accepts two offsets into a segment that are boundaries in order. -/
def checkRange (s : Segment) (start stop : Nat) : Machine (Except IndexError Unit) := do
  let length ← length s
  if stop < start ∨ length < stop then return .error (.invalidRange start stop length)
  else
    let text ← text s
    if ¬ isBoundary text start then return .error (.notCharBoundary start)
    else if ¬ isBoundary text stop then return .error (.notCharBoundary stop)
    else return .ok ()

/-- The part between two boundaries, when the position of the first is known. -/
def deriveAt (s : Segment) (start stop : Nat) (p : Position) : Machine Segment := do
  let stopPosition ← endPosition (← slice (← text s) start stop) p
  return {
    document := s.document
    isRoot := false
    startOffset := ← add s.startOffset start
    stopOffset := ← add s.startOffset stop
    start := p
    stop := stopPosition }

/-- The position at an offset. -/
def positionAt (s : Segment) (n : Nat) : Machine Position := do
  if n = (← length s) ∧ ¬ s.isEmpty then
    let col ← column (s.stop.col + 1)
    if col < 0 then fault .pastEnd
    return ⟨s.stop.line, col.toNat⟩
  else
    let reached ← (Locator.start (← text s) s.start).advanceTo n
    return reached.position

/-- The part between two boundaries. -/
def derive (s : Segment) (start stop : Nat) : Machine Segment := do
  deriveAt s start stop (← positionAt s start)

/-- The part from one offset up to another. -/
def substring (s : Segment) (start stop : Nat) : Machine (Except IndexError Segment) := do
  match ← checkRange s start stop with
  | .ok () => return .ok (← derive s start stop)
  | .error e => return .error e

/-- The part from an offset to the end. -/
def substringFrom (s : Segment) (start : Nat) : Machine (Except IndexError Segment) := do
  substring s start (← length s)

/-- The empty segment after the last character. -/
def tail (s : Segment) : Machine Segment := do
  let length ← length s
  derive s length length

section

variable {s : Segment}

/-- The characters of a segment are read off its document. -/
theorem text_eq (hs : s.InMemory) : text s = pure s.text := by
  obtain ⟨before, after, h⟩ := hs.placed
  exact slice_eq h.text h.startOffset.symm h.stopOffset.symm

/-- The length is the difference of the offsets. -/
theorem length_eq (hs : s.InMemory) : length s = pure s.length := by
  obtain ⟨before, after, h⟩ := hs.placed
  have hbytes := congrArg byteLength h.text
  have hdocument := hs.bytes
  have hcount := maxCount_eq
  have hstart := h.startOffset
  have hstop := h.stopOffset
  simp only [Text.byteLength_append] at hbytes hstop
  exact sub_eq (by omega) (by omega)

/-- Two offsets are accepted or refused as they should be. -/
theorem checkRange_eq (hs : s.InMemory) (start stop : Nat) :
    checkRange s start stop = pure (s.checkRange start stop) := by
  unfold checkRange Segment.checkRange
  rw [length_eq hs, text_eq hs]
  simp only [pure_bind]
  split_ifs <;> rfl

/-- A part is derived between the offsets of a span of the text, from any position. -/
theorem deriveAt_comesTo (hs : s.InMemory) {l m r : Text} (htext : s.text = l ++ m ++ r)
    (p : Position) : (deriveAt s (byteLength l) (byteLength (l ++ m)) p).ComesTo
      (CharsCounted m p) (s.deriveAt (byteLength l) (byteLength (l ++ m)) p) := by
  obtain ⟨before, after, h⟩ := hs.placed
  have hbytes := congrArg byteLength h.text
  have hpart := congrArg byteLength htext
  have hdocument := hs.bytes
  have hcount := maxCount_eq
  have hstart := h.startOffset
  simp only [Text.byteLength_append] at hbytes hpart
  have hend : (endPosition m p).ComesTo (CharsCounted m p) (.of p m) :=
    endPosition_comesTo (by omega)
  unfold deriveAt Segment.deriveAt
  rw [text_eq hs, pure_bind, slice_eq htext rfl rfl, pure_bind, htext, Text.slice_append]
  refine hend.bind ?_
  rw [add_eq (by omega), pure_bind, add_eq (by rw [Text.byteLength_append]; omega), pure_bind]
  exact .pure _

/-- The position at a cut is found, unless the machine cannot count to it. -/
theorem positionAt_comesTo (hs : s.InMemory) {l r : Text} (htext : s.text = l ++ r) :
    (positionAt s (byteLength l)).ComesTo s.CharsCounted (s.positionAt (byteLength l)) := by
  unfold positionAt Segment.positionAt
  rw [length_eq hs, pure_bind]
  split_ifs with hend
  · -- There is a column past the end, and it is not negative.
    obtain ⟨hlow, hhigh⟩ := Segment.col_stop_lt hs.placed
    rw [column_eq (by omega) (by omega), pure_bind, if_neg (by omega)]
    exact .pure _
  · have hbytes := hs.byteLength_le
    rw [htext] at hbytes
    have hwalk := Locator.advanceTo_past_comesTo (p := s.start) (l := []) (m := l) (r := r) hbytes
    rw [List.nil_append, ← htext] at hwalk
    rw [text_eq hs, pure_bind, Locator.start_eq_past,
      show ((Tracker.start s.text s.start).advanceTo (byteLength l)).position =
        s.walkTo (byteLength l) from rfl, Segment.walkTo_eq htext]
    refine (hwalk.mono fun h => ?_).bind (.pure _)
    cases r with
    | cons c r =>
      have hchar := h.chars l c r htext
      exact ⟨.inr hchar.line, hchar.col⟩
    | nil =>
      -- Only in a segment without characters does a walk lead to the end.
      obtain rfl : l = [] := by
        by_contra hne
        rw [List.append_nil] at htext
        exact hend ⟨by rw [hs.placed.length_eq, htext],
          fun he => hne (htext ▸ hs.placed.isEmpty_iff.mp he)⟩
      exact ⟨.inl rfl, h.col⟩

/-- A part is derived for a span of the text, unless the machine cannot count to it. -/
theorem derive_comesTo (hs : s.InMemory) {l m r : Text} (htext : s.text = l ++ m ++ r) :
    (derive s (byteLength l) (byteLength (l ++ m))).ComesTo s.CharsCounted
      (s.derive (byteLength l) (byteLength (l ++ m))) :=
  (positionAt_comesTo hs (htext.trans (List.append_assoc l m r))).bind
    ((deriveAt_comesTo hs htext _).mono fun h => h.positionAt hs.placed htext)

/-- What is derived for a span of the text. -/
theorem derive_span (hs : s.InMemory) {span : Span} {low high : Nat}
    (h : span.Inside s.text low high) :
    (derive s span.start span.stop).ComesTo s.CharsCounted (s.derive span.start span.stop) := by
  obtain ⟨l, m, r, htext, hl, hm⟩ := h.cut
  rw [← hl, ← hm]
  exact derive_comesTo hs htext

/-- The part between two offsets is found where they are accepted. -/
theorem substring_comesTo (hs : s.InMemory) (start stop : Nat) :
    (substring s start stop).ComesTo s.CharsCounted (s.substring start stop) := by
  unfold substring Segment.substring
  rw [checkRange_eq hs, pure_bind]
  cases h : s.checkRange start stop with
  | error e => exact .pure _
  | ok u => exact (derive_span hs (Segment.checkRange_eq_ok_iff.mp h)).bind (.pure _)

/-- So is the part from an offset on. -/
theorem substringFrom_comesTo (hs : s.InMemory) (start : Nat) :
    (substringFrom s start).ComesTo s.CharsCounted (s.substringFrom start) := by
  rw [substringFrom, length_eq hs, pure_bind]
  exact substring_comesTo hs start s.length

/-- The empty segment after the last character is found. -/
theorem tail_comesTo (hs : s.InMemory) : (tail s).ComesTo s.CharsCounted s.tail := by
  have h := derive_comesTo (l := s.text) (m := []) (r := []) hs (by simp)
  rw [List.append_nil, ← hs.placed.length_eq] at h
  rw [tail, length_eq hs, pure_bind]
  exact h

end

/-! ## Characters -/

/-- The character that starts at an offset. -/
def charAt (s : Segment) (n : Nat) : Machine (Except IndexError Char) := do
  let length ← length s
  if length ≤ n then return .error (.outOfBounds n length)
  else match Text.charAt? (← text s) n with
    | some c => return .ok c
    | none => return .error (.notCharBoundary n)

/-- The character that ends at an offset. -/
def charEndingAt (s : Segment) (n : Nat) : Machine (Except IndexError Char) := do
  let length ← length s
  if n = 0 ∨ length < n then return .error (.outOfBounds n length)
  else match Text.charBefore? (← text s) n with
    | some c => return .ok c
    | none => return .error (.notCharBoundary n)

/-- How many characters lie between two offsets. -/
def codePointCount (s : Segment) (start stop : Nat) : Machine (Except IndexError Nat) := do
  match ← checkRange s start stop with
  | .ok () => return .ok (← charCount (← text s) start stop)
  | .error e => return .error e

/-- The one-character segment at an offset, or the empty segment after the last character. -/
def charSegmentAt (s : Segment) (n : Nat) : Machine (Except IndexError Segment) := do
  if n = (← length s) then return .ok (← tail s)
  else match ← charAt s n with
    | .ok c => return .ok (← derive s n (← add n c.utf8Size))
    | .error e => return .error e

/-- The document's character just before a segment, or the empty segment at its start. -/
def charBefore (s : Segment) : Machine Segment := do
  if s.isRoot ∨ s.startOffset = 0 then derive s 0 0
  else match (← slice (← text s.root) 0 s.startOffset).getLast? with
    | some c => derive s.root (← sub s.startOffset c.utf8Size) s.startOffset
    | none => do
      fault .charBefore
      derive s 0 0

/-- The document's character just after a segment, or the empty segment at its end. -/
def charAfter (s : Segment) : Machine Segment := do
  if s.isRoot ∨ byteLength s.document.text ≤ s.stopOffset then tail s
  else match ← charSegmentAt s.root s.stopOffset with
    | .ok c => return c
    | .error _ => do
      fault .charAfter
      tail s

/-- The segment without the blanks at its edges. -/
def trim (s : Segment) : Machine Segment := do
  let text ← text s
  let start ← sub (byteLength text) (byteLength (text.dropWhile Segment.isTrimmed))
  let stop := max (byteLength (text.reverse.dropWhile Segment.isTrimmed)) start
  if start = 0 ∧ stop = byteLength text then return s else derive s start stop

section

variable {s : Segment}

/-- The character that starts at an offset is read off the text. -/
theorem charAt_eq (hs : s.InMemory) (n : Nat) : charAt s n = pure (s.charAt n) := by
  unfold charAt Segment.charAt
  rw [length_eq hs, pure_bind, text_eq hs, pure_bind]
  split_ifs
  · rfl
  · cases Text.charAt? s.text n <;> rfl

/-- So is the character that ends at one. -/
theorem charEndingAt_eq (hs : s.InMemory) (n : Nat) :
    charEndingAt s n = pure (s.charEndingAt n) := by
  unfold charEndingAt Segment.charEndingAt
  rw [length_eq hs, pure_bind, text_eq hs, pure_bind]
  split_ifs
  · rfl
  · cases Text.charBefore? s.text n <;> rfl

/-- The characters between two offsets are counted. -/
theorem codePointCount_eq (hs : s.InMemory) (start stop : Nat) :
    codePointCount s start stop = pure (s.codePointCount start stop) := by
  unfold codePointCount Segment.codePointCount
  rw [checkRange_eq hs, pure_bind]
  cases h : s.checkRange start stop with
  | error e => rfl
  | ok u =>
    obtain ⟨l, m, r, htext, hl, hm⟩ := (Segment.checkRange_eq_ok_iff.mp h).cut
    simp only at hl hm
    simp only [text_eq hs, charCount, slice_eq htext hl hm, pure_bind]
    rw [htext, ← hl, ← hm, Text.slice_append]
    rfl

/-- The character at an offset is found as a segment. -/
theorem charSegmentAt_comesTo (hs : s.InMemory) (n : Nat) :
    (charSegmentAt s n).ComesTo s.CharsCounted (s.charSegmentAt n) := by
  unfold charSegmentAt Segment.charSegmentAt
  rw [length_eq hs, pure_bind]
  split_ifs with hn
  · exact (tail_comesTo hs).bind (.pure _)
  · rw [charAt_eq hs, pure_bind]
    cases hc : s.charAt n with
    | error e => exact .pure _
    | ok c =>
      obtain ⟨l, r, htext, rfl⟩ := Segment.charAt_eq_ok hc
      have hbytes := hs.byteLength_le
      have hcount := maxCount_eq
      have hstop : byteLength l + c.utf8Size = byteLength (l ++ [c]) := by simp
      rw [htext, Text.byteLength_append] at hbytes
      simp only [add_eq (show byteLength l + c.utf8Size ≤ maxCount by omega), pure_bind]
      rw [hstop]
      refine (derive_comesTo hs htext).bind ?_
      rw [← hstop]
      exact .pure _

/-- The root up to where a segment starts. -/
theorem slice_before {before after : Text} (h : s.LiesBetween before after) :
    slice s.root.text 0 s.startOffset = pure before ∧
      Text.slice s.root.text 0 s.startOffset = before := by
  have htext : s.root.text = [] ++ before ++ (s.text ++ after) := by
    rw [Segment.root, Segment.text_ofDocument, h.text, List.append_assoc]
    rfl
  refine ⟨slice_eq htext rfl h.startOffset.symm, ?_⟩
  rw [htext, h.startOffset]
  exact Text.slice_append [] before (s.text ++ after)

/-- The character before a segment is found in the root. -/
theorem charBefore_comesTo (hs : s.InMemory) :
    (charBefore s).ComesTo (s.CharsCounted ∧ s.root.CharsCounted) s.charBefore := by
  obtain ⟨before, after, h⟩ := hs.placed
  obtain ⟨hslice, hmodel⟩ := slice_before h
  unfold charBefore Segment.charBefore
  split_ifs with hedge
  · exact (derive_comesTo (l := []) (m := []) (r := s.text) hs rfl).mono And.left
  · -- What is in front of the segment has a last character.
    have hne : before ≠ [] := by
      rintro rfl
      exact hedge (.inr h.startOffset)
    obtain ⟨b, c, hbefore⟩ := (List.eq_nil_or_concat before).resolve_left hne
    rw [List.concat_eq_append] at hbefore
    have htext : s.root.text = b ++ [c] ++ (s.text ++ after) := by
      rw [Segment.root, Segment.text_ofDocument, h.text, hbefore, List.append_assoc]
    have hoffset : s.startOffset = byteLength b + c.utf8Size := by
      rw [h.startOffset, hbefore]
      simp
    have hstop : s.startOffset = byteLength (b ++ [c]) := by rw [h.startOffset, hbefore]
    have hbytes := hs.root.byteLength_le
    have hcount := maxCount_eq
    rw [htext, Text.byteLength_append, ← hstop] at hbytes
    rw [text_eq hs.root, pure_bind, hslice, pure_bind, hmodel, hbefore]
    simp only [List.getLast?_concat]
    rw [sub_eq (by omega) (by omega), pure_bind, hoffset, Nat.add_sub_cancel, ← hoffset, hstop]
    exact (derive_comesTo hs.root htext).mono And.right

/-- So is the character after it. -/
theorem charAfter_comesTo (hs : s.InMemory) :
    (charAfter s).ComesTo (s.CharsCounted ∧ s.root.CharsCounted) s.charAfter := by
  obtain ⟨before, after, h⟩ := hs.placed
  unfold charAfter Segment.charAfter
  split_ifs with hedge
  · exact (tail_comesTo hs).mono And.left
  · -- The segment stops at a boundary of the document.
    have htext : s.root.text = (before ++ s.text) ++ after := by
      rw [Segment.root, Segment.text_ofDocument, h.text]
    have hboundary : isBoundary s.root.text s.stopOffset := by
      rw [htext, h.stopOffset]
      exact Text.isBoundary_append _ _
    obtain ⟨t, ht⟩ := Segment.exists_charSegmentAt hs.root.placed hboundary
    refine ((charSegmentAt_comesTo hs.root s.stopOffset).mono And.right).bind ?_
    rw [ht]
    exact .pure _

/-- What is left between the blanks at the edges is found. -/
theorem trim_comesTo (hs : s.InMemory) : (trim s).ComesTo s.CharsCounted s.trim := by
  have hcount := maxCount_eq
  have hbytes := hs.byteLength_le
  have hfront := congrArg byteLength
    (List.takeWhile_append_dropWhile (p := Segment.isTrimmed) (l := s.text))
  have hback := congrArg byteLength
    (List.takeWhile_append_dropWhile (p := Segment.isTrimmed) (l := s.text.reverse))
  rw [Text.byteLength_append] at hfront hback
  rw [Text.byteLength_reverse] at hback
  have hstart : byteLength s.text - byteLength (s.text.dropWhile Segment.isTrimmed) =
      byteLength (s.text.takeWhile Segment.isTrimmed) := by omega
  have hstop : byteLength (s.text.reverse.dropWhile Segment.isTrimmed) =
      s.length - byteLength (s.text.reverse.takeWhile Segment.isTrimmed) := by
    rw [hs.placed.length_eq]
    omega
  unfold trim Segment.trim
  rw [text_eq hs, pure_bind, sub_eq (by omega) (by omega), pure_bind, hstart, hstop, Nat.max_comm,
    ← hs.placed.length_eq]
  simp only
  split_ifs
  · exact .pure _
  · exact derive_span hs (Segment.inside_trim hs.placed)

end

end Machine

end SourceText
