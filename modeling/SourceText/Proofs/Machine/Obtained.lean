import SourceText.Proofs.Cut
import SourceText.Proofs.Machine.Calls

/-!
# Obtained segments

A program that stops where a number is out of bounds obtains from a document those segments that
calls complete with, one after the other from the root on (`Machine.Obtains`). They are segments
that operations lead to (`Obtains.reachable`), but not always all of them: on the last line that can
be counted, a line break is one too many for what starts behind it. A document that does not end
before that has no root (`newRoot_meets`), and a split that has a piece there is not completed
(`Machine.lines_meets`).

A segment that is obtained has only lines that can be counted (`Obtains.line_stop_le`): cutting a
part out adds none (`Segment.IsCut.line_stop_le`), and a split that goes beyond the last one meets
it. As long as no column is too large for a signed number the machine can count to each of its
characters (`Obtains.charsCounted`), so cutting parts out of it completes. And if all lines of the
document can be counted, every segment that operations lead to is obtained, and the program need not
stop anywhere (`obtains_iff_reaches`).
-/

namespace SourceText

open Text (byteLength)

/-- The document can be given to a machine: its text is one in memory, and the position that it
starts at is a pair of counts. -/
structure Document.InMemory (d : Document) : Prop where
  /-- A text in memory has no more bytes than the greatest signed column. -/
  bytes : byteLength d.text ≤ maxSignedCol
  /-- The machine can count to the start. -/
  start : d.start.Counted

instance (d : Document) : Decidable d.InMemory :=
  decidable_of_iff (byteLength d.text ≤ maxSignedCol ∧ d.start.Counted)
    ⟨fun h => ⟨h.1, h.2⟩, fun h => ⟨h.bytes, h.start⟩⟩

namespace Segment

variable {s t : Segment}

/-! ## Lines of parts -/

/-- A segment stops where its text ends. -/
theorem WellPlaced.stop_eq (hs : s.WellPlaced) : s.stop = EndPosition.of s.start s.text := by
  obtain ⟨before, after, h⟩ := hs
  exact h.stop

/-- It does not stop on a line before its start. -/
theorem WellPlaced.line_start_le_stop (hs : s.WellPlaced) : s.start.line ≤ s.stop.line := by
  rw [hs.stop_eq]
  exact EndPosition.line_le _ _

/-- A part does not stop on a later line than the segment if the walk to its start has more text
ahead. -/
theorem line_stop_deriveAt_le (hs : s.WellPlaced) {l m r : Text} (htext : s.text = l ++ m ++ r)
    (hne : m ++ r ≠ []) :
    (s.deriveAt (byteLength l) (byteLength (l ++ m))
      (s.start.advance l (m ++ r).head?)).stop.line ≤ s.stop.line := by
  have hwhole : s.stop = EndPosition.of (s.start.advance l (m ++ r).head?) (m ++ r) := by
    rw [hs.stop_eq, htext, List.append_assoc, EndPosition.of_append _ _ hne]
  obtain ⟨before, after, h⟩ := hs
  rw [(h.deriveAt htext (s.start.advance l (m ++ r).head?)).stop, text_deriveAt h htext, hwhole]
  obtain rfl | hm := eq_or_ne m []
  · exact EndPosition.line_le _ _
  · exact EndPosition.line_le_append _ hm r

/-- A part that has characters does not stop on a later line than the segment. -/
theorem IsPart.line_stop_le (hs : s.WellPlaced) (h : s.IsPart t) (hne : t.text ≠ []) :
    t.stop.line ≤ s.stop.line := by
  obtain ⟨l, m, r, htext, p, hp, rfl⟩ := h
  have hm : m ++ r ≠ [] := by
    obtain ⟨before, after, hlies⟩ := hs
    rw [text_deriveAt hlies htext] at hne
    exact List.append_ne_nil_of_left_ne_nil hne r
  have hwalk : p = s.start.advance l (m ++ r).head? := by
    rw [List.append_assoc] at htext
    rcases hp with rfl | rfl
    · exact positionAt_eq_advance hs htext hm
    · exact walkTo_eq htext
  rw [hwalk]
  exact line_stop_deriveAt_le hs htext hm

/-- No part that is derived stops on a later line, since the place past the end of a segment is put
on the line of its last character. -/
theorem IsCut.line_stop_le (hs : s.WellPlaced) (h : s.IsCut t) : t.stop.line ≤ s.stop.line := by
  obtain ⟨l, m, r, htext, rfl⟩ := h
  by_cases hne : m ++ r = []
  · obtain ⟨rfl, rfl⟩ := List.append_eq_nil_iff.mp hne
    have hend : l = s.text := by simpa using htext.symm
    have hempty := (isCut_derive_of_cut htext).wellPlaced hs
    rw [hempty.stop_eq, hs.text_derive htext, EndPosition.of_nil]
    change (s.positionAt (byteLength l)).line ≤ s.stop.line
    rw [hend]
    by_cases hnil : s.text = []
    · rw [hnil, Text.byteLength_nil, positionAt_zero hs]
      exact hs.line_start_le_stop
    · rw [positionAt_eq_pastEnd hs hnil]
      exact Nat.le_refl _
  · have hposition := positionAt_eq_advance hs (htext.trans (List.append_assoc _ _ _)) hne
    rw [derive, hposition]
    exact line_stop_deriveAt_le hs htext hne

/-! ## Characters that can be counted -/

/-- A column that is not too large for a signed number can be counted. -/
theorem ColumnsFit.col_start_le (h : s.ColumnsFit) : s.start.col ≤ maxCount := by
  have hcol := h [] s.text rfl
  have hcount := Machine.maxCount_eq
  rw [Position.advance_nil] at hcol
  omega

/-- If columns fit and the machine can count to the last line of a segment, it can count to each
character. -/
theorem InMemory.charsCounted (hs : s.InMemory) (hcols : s.ColumnsFit)
    (hline : s.stop.line ≤ maxCount) : s.CharsCounted where
  bytes := hs.byteLength_le
  col := hcols.col_start_le
  chars := by
    intro l c r htext
    have hcol := hcols l (c :: r) htext
    have hcount := Machine.maxCount_eq
    have hend : s.stop = EndPosition.of (s.start.advance l (some c)) (c :: r) := by
      rw [hs.placed.stop_eq, htext, EndPosition.of_append _ _ (List.cons_ne_nil c r)]
      rfl
    have hle := EndPosition.line_le (s.start.advance l (some c)) (c :: r)
    rw [← hend] at hle
    rw [List.head?_cons] at hcol
    exact ⟨Nat.le_trans hle hline, by omega⟩

end Segment

namespace Machine

variable {d : Document} {s t : Segment} {α : Type}

/-- The segment is what calls complete with, one after the other from the root of the document on,
with no number out of bounds in any of them. A program that stops at such a number comes to these
segments and to no others. One that lets it wrap comes to the same, as long as the line of the start
and the number of line breaks add up to a count (`obtains_iff_reaches`). -/
inductive Obtains (d : Document) : Segment → Prop where
  /-- The root. -/
  | root {s : Segment} (h : (newRoot d).Completes s) : Obtains d s
  /-- One call more. -/
  | call {s t : Segment} {α : Type} {c : Call α} {a : α} (hs : Obtains d s)
      (h : (c.exec s).Completes a) (ht : t ∈ c.segments a) : Obtains d t

/-! ## What is obtained -/

/-- A document that ends on a line that the machine cannot count to has no root. -/
theorem newRoot_meets (hd : d.InMemory)
    (hline : maxCount < (EndPosition.of d.start d.text).line) : (newRoot d).Meets .count :=
  (endPosition_meets hd.bytes hd.start.line hline).bind

/-- Operations lead to what is obtained. -/
theorem Obtains.reachable (hd : d.InMemory) (h : Obtains d s) : Segment.Reachable d s := by
  induction h with
  | root h =>
    obtain ⟨-, rfl⟩ := (newRoot_comesTo hd.bytes).eq_of_completes h
    exact .root
  | call hs h ht ih =>
    obtain ⟨-, rfl⟩ := (exec_comesTo (ih.inMemory hd.bytes) _).eq_of_completes h
    exact .step ih (derives_of_mem_segments _ ht)

/-- What is obtained is in memory. -/
theorem Obtains.inMemory (hd : d.InMemory) (h : Obtains d s) : s.InMemory :=
  (h.reachable hd).inMemory hd.bytes

/-- If anything is obtained, the root is. -/
theorem Obtains.newRoot (hd : d.InMemory) (h : Obtains d s) :
    (newRoot d).Completes (.ofDocument d) := by
  induction h with
  | root h =>
    obtain ⟨-, rfl⟩ := (newRoot_comesTo hd.bytes).eq_of_completes h
    exact h
  | call _ _ _ ih => exact ih

/-- So the machine can count to the last line of the document. -/
theorem Obtains.line_end_le (hd : d.InMemory) (h : Obtains d s) :
    (EndPosition.of d.start d.text).line ≤ maxCount := by
  by_contra hline
  exact (h.newRoot hd).inBounds .count rfl (newRoot_meets hd (Nat.not_le.mp hline))

/-- A piece of a segment stops on a line that the machine can count to if it starts on one. -/
theorem line_stop_piece_le (hs : s.WellPlaced) (hline : s.stop.line ≤ maxCount)
    (ht : t = s ∨ s.IsPart t) (hstart : t.start.line ≤ maxCount) : t.stop.line ≤ maxCount := by
  rcases ht with rfl | ht
  · exact hline
  · by_cases hne : t.text = []
    · rw [(ht.wellPlaced hs).stop_eq, hne, EndPosition.of_nil]
      exact hstart
    · exact Nat.le_trans (ht.line_stop_le hs hne) hline

/-- A call that completes answers with segments whose lines the machine can count. -/
theorem Call.line_stop_le (hs : s.InMemory) (hline : s.stop.line ≤ maxCount)
    (hroot : s.root.stop.line ≤ maxCount) {c : Call α} {a : α} (h : (c.exec s).Completes a)
    (ht : t ∈ c.segments a) : t.stop.line ≤ maxCount := by
  obtain ⟨-, rfl⟩ := (exec_comesTo hs c).eq_of_completes h
  have hstart := Nat.le_trans hs.placed.line_start_le_stop hline
  -- What is cut out of the segment or of its root stops on no later line than that.
  have hcut (h : s.IsCut t) : t.stop.line ≤ maxCount :=
    Nat.le_trans (h.line_stop_le hs.placed) hline
  have hrootCut (h : s.root.IsCut t) : t.stop.line ≤ maxCount :=
    Nat.le_trans (h.line_stop_le hs.root.placed) hroot
  have hcount : ¬ (c.exec s).Meets .count := h.inBounds .count rfl
  cases c with
  | text | length | location | charAt | charEndingAt | codePointCount | underline | matching
  | current => cases ht
  | root => exact List.mem_singleton.mp ht ▸ hroot
  | tail => exact hcut (List.mem_singleton.mp ht ▸ Segment.isCut_tail hs.placed)
  | charBefore =>
    rw [List.mem_singleton.mp ht] at hcut hrootCut ⊢
    exact (Segment.isCut_charBefore hs.placed).elim hcut hrootCut
  | charAfter =>
    rw [List.mem_singleton.mp ht] at hcut hrootCut ⊢
    exact (Segment.isCut_charAfter hs.placed).elim hcut hrootCut
  | trim =>
    obtain rfl : t = s.trim := List.mem_singleton.mp ht
    rcases Segment.isCut_trim hs.placed with htrim | htrim
    · rw [htrim]
      exact hline
    · exact hcut htrim
  | substring start stop => exact hcut (Segment.isCut_substring (mem_toOption_iff.mp ht))
  | substringFrom start => exact hcut (Segment.isCut_substring (mem_toOption_iff.mp ht))
  | charSegmentAt n => exact hcut (Segment.isCut_charSegmentAt hs.placed (mem_toOption_iff.mp ht))
  | group p ops index =>
    obtain ⟨-, hm, hsegment⟩ := matcherAfter_eq hs p ops
    have hgroup := Segment.isCut_groupAt? hm (Option.mem_toList.mp ht)
    rw [hsegment] at hgroup
    exact hcut hgroup
  | parsing ops op =>
    obtain ⟨-, hp, hsegment⟩ := parserAfter_comesTo hs ops
    have hanswer := (Parser.perform_reads hp op).part t (Option.mem_toList.mp ht)
    rw [hsegment] at hanswer
    exact hcut hanswer
  -- The pieces of a split are found by a walk, which goes on to the next line behind a last break.
  | split p limit =>
    refine line_stop_piece_le hs.placed hline (Segment.isPart_split hs.placed ht) ?_
    exact Nat.not_lt.mp fun hlt => hcount (split_meets hs p limit hstart ht hlt)
  | splitText separator limit =>
    cases hpieces : s.splitText separator limit with
    | error e =>
      simp only [Call.segments, Call.answer, hpieces] at ht
      cases ht
    | ok pieces =>
      simp only [Call.segments, Call.answer, hpieces] at ht
      refine line_stop_piece_le hs.placed hline (Segment.isPart_splitText hs.placed hpieces ht) ?_
      exact Nat.not_lt.mp fun hlt =>
        hcount (splitText_meets hs separator limit hstart hpieces ht hlt)
  | lines =>
    refine line_stop_piece_le hs.placed hline (Segment.isPart_lines hs.placed ht) ?_
    exact Nat.not_lt.mp fun hlt => hcount (lines_meets hs hstart ht hlt)

/-- The machine can count to every line of a segment that is obtained. -/
theorem Obtains.line_stop_le (hd : d.InMemory) (h : Obtains d s) : s.stop.line ≤ maxCount := by
  induction h with
  | root h =>
    have hend := (Obtains.root h).line_end_le hd
    obtain ⟨-, rfl⟩ := (newRoot_comesTo hd.bytes).eq_of_completes h
    exact hend
  | call hs h ht ih =>
    have hroot := hs.line_end_le hd
    have hdocument := (hs.reachable hd).wellPlaced.2
    refine Call.line_stop_le (hs.inMemory hd) ih ?_ h ht
    rw [Segment.root, hdocument]
    exact hroot

/-- The machine can count to the start of a segment that is obtained, if no column of the document
is too large for a signed number. -/
theorem Obtains.start_counted (hd : d.InMemory) (hcols : d.ColumnsFit) (h : Obtains d s) :
    s.start.Counted where
  line := Nat.le_trans (h.inMemory hd).placed.line_start_le_stop (h.line_stop_le hd)
  col := ((h.reachable hd).columnsFit hcols).col_start_le

/-- It can count to each character as well. -/
theorem Obtains.charsCounted (hd : d.InMemory) (hcols : d.ColumnsFit) (h : Obtains d s) :
    s.CharsCounted :=
  (h.inMemory hd).charsCounted ((h.reachable hd).columnsFit hcols) (h.line_stop_le hd)

/-- The root of a segment that is obtained is obtained. -/
theorem Obtains.to_root (hd : d.InMemory) (h : Obtains d s) : Obtains d s.root := by
  rw [Segment.root, (h.reachable hd).wellPlaced.2]
  exact .root (h.newRoot hd)

/-- Cutting a part out of a segment that is obtained completes. -/
theorem Obtains.completes_substring (hd : d.InMemory) (hcols : d.ColumnsFit) (h : Obtains d s)
    (start stop : Nat) :
    ((Call.substring start stop).exec s).Completes (s.substring start stop) :=
  (substring_comesTo (h.inMemory hd) start stop).completes (h.charsCounted hd hcols)

/-- So parts of a segment that is obtained are obtained. -/
theorem Obtains.of_substring (hd : d.InMemory) (hcols : d.ColumnsFit) (h : Obtains d s)
    {start stop : Nat} (ht : s.substring start stop = .ok t) : Obtains d t :=
  .call h (h.completes_substring hd hcols start stop) (mem_toOption_iff.mpr ht)

/-- The root is made if the machine can count to the last line of the document. -/
theorem newRoot_completes (hd : d.InMemory) (hcols : d.ColumnsFit)
    (hline : (EndPosition.of d.start d.text).line ≤ maxCount) :
    (newRoot d).Completes (.ofDocument d) := by
  have hroot : Segment.Reachable d (.ofDocument d) := .root
  have hchars := (hroot.inMemory hd.bytes).charsCounted (hroot.columnsFit hcols) hline
  unfold Segment.CharsCounted at hchars
  rw [Segment.text_ofDocument] at hchars
  exact (newRoot_comesTo hd.bytes).completes hchars

/-! ## Documents whose lines can all be counted -/

/-- The coordinates of a document can be counted if its lines can, and no column is too large for a
signed number. -/
theorem fits_of_columnsFit (hd : d.InMemory) (hcols : d.ColumnsFit)
    (hline : d.start.line + (LineBreak.spans d.text).length ≤ maxCount) : d.Fits := by
  have hcount := maxCount_eq
  unfold Document.ColumnsFit at hcols
  exact fits_of_length_le hd.bytes hline (by omega)

/-- If the coordinates of a document can be counted, what operations lead to is obtained. -/
theorem obtains_of_reachable (hd : d.Fits) (h : Segment.Reachable d s) : Obtains d s := by
  induction h with
  | root => exact .root ((newRoot_comesTo hd.bytes).completes hd.charsCounted)
  | step hs h ih =>
    obtain ⟨α, c, ht⟩ := exists_call h
    have hfits := hs.fits hd
    exact .call ih ((exec_comesTo hfits.inMemory c).completes hfits) ht

/-- Then it does not matter whether the machine stops where a number is out of bounds. -/
theorem obtains_iff_reaches (hd : d.InMemory) (hfits : d.Fits) : Obtains d s ↔ Reaches d s := by
  rw [reaches_iff hfits]
  exact ⟨fun h => h.reachable hd, obtains_of_reachable hfits⟩

end Machine

end SourceText
