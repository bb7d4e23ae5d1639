import Mathlib.Data.List.Forall2
import SourceText.Proofs.Split

/-!
# Segments that are alike

Alike segments read the same, have a source of the same name, and start and end at the same
positions. They may be parts of different documents, or lie at different places of one. What is cut
out of a segment depends on its text, its start and its end alone, so alike segments have alike
parts: they put every offset at the same position (`Alike.positionAt_eq`), and the part of a range
has the same text, start and end in both (`Alike.derive`). Everything else that is cut out of a
segment comes down to this, and a request that one of them refuses the other refuses for the same
reason (`SameResult`).

A part is alike to what is cut out of a larger part at the same place (`derive_derive_alike`, and
`derive_shift_alike` for a part that has characters). The empty part at the end of the larger one
need not be.
-/

namespace SourceText

open Text (byteLength)

/-- Two requests have the same result: both have an answer, and the answers are related, or both are
refused for the same reason. -/
inductive SameResult {ε α : Type} (R : α → α → Prop) : Except ε α → Except ε α → Prop where
  /-- Both have an answer. -/
  | ok {a b : α} (h : R a b) : SameResult R (.ok a) (.ok b)
  /-- Both are refused. -/
  | error (e : ε) : SameResult R (.error e) (.error e)

namespace Segment

/-- Well placed segments of one text and source that start at the same position are alike: where
they end follows. -/
theorem WellPlaced.alike {s t : Segment} (hs : s.WellPlaced) (ht : t.WellPlaced)
    (htext : s.text = t.text) (hsource : s.source = t.source) (hstart : s.start = t.start) :
    s.Alike t := by
  obtain ⟨_, _, hs⟩ := hs
  obtain ⟨_, _, ht⟩ := ht
  refine ⟨htext, hsource, hstart, ?_⟩
  rw [hs.stop, ht.stop, hstart, htext]

/-- So they are alike if and only if they start there. -/
theorem WellPlaced.alike_iff {s t : Segment} (hs : s.WellPlaced) (ht : t.WellPlaced)
    (htext : s.text = t.text) (hsource : s.source = t.source) :
    s.Alike t ↔ s.start = t.start :=
  ⟨fun h => h.2.2.1, hs.alike ht htext hsource⟩

namespace Alike

variable {s t : Segment}

/-- Being alike goes both ways. -/
theorem symm (h : s.Alike t) : t.Alike s :=
  ⟨h.1.symm, h.2.1.symm, h.2.2.1.symm, h.2.2.2.symm⟩

/-- A walk through alike segments leads to the same positions. -/
theorem walkTo_eq (h : s.Alike t) (n : Nat) : s.walkTo n = t.walkTo n := by
  obtain ⟨htext, -, hstart, -⟩ := h
  rw [walkTo, walkTo, htext, hstart]

section WellPlaced

variable (h : s.Alike t) (hs : s.WellPlaced) (ht : t.WellPlaced)
include h hs ht

/-- Segments that are alike are of the same length. -/
theorem length_eq : s.length = t.length := by
  rw [hs.length_eq, ht.length_eq, h.1]

/-- Alike segments put every offset at the same position, the end included: it is found from where
the last character is, and that is the same too. -/
theorem positionAt_eq (n : Nat) : s.positionAt n = t.positionAt n := by
  have hempty : s.isEmpty = true ↔ t.isEmpty = true := by
    rw [hs.isEmpty_iff, ht.isEmpty_iff, h.1]
  have hpast : s.pastEnd = t.pastEnd := by
    rw [pastEnd, pastEnd, h.2.2.2]
  have hwalk : ((Tracker.start s.text s.start).advanceTo n).position =
      ((Tracker.start t.text t.start).advanceTo n).position := h.walkTo_eq n
  unfold positionAt
  simp only [h.length_eq hs ht, hempty, hpast, hwalk]

/-- Alike segments have alike parts, if the parts start at the same position. -/
theorem deriveAt {span : Span} {low high : Nat} (hin : span.Inside s.text low high)
    (p : Position) :
    (s.deriveAt span.start span.stop p).Alike (t.deriveAt span.start span.stop p) := by
  have hin' := hin
  rw [h.1] at hin'
  refine ⟨?_, h.2.1, rfl, ?_⟩
  · rw [text_deriveAt_eq_slice hs hin, text_deriveAt_eq_slice ht hin', h.1]
  · simp only [Segment.deriveAt, h.1]

/-- The same part of alike segments is alike. -/
theorem derive {span : Span} {low high : Nat} (hin : span.Inside s.text low high) :
    (s.derive span.start span.stop).Alike (t.derive span.start span.stop) := by
  rw [Segment.derive, Segment.derive, h.positionAt_eq hs ht]
  exact h.deriveAt hs ht hin _

/-! ## The operations -/

/-- The same ranges are refused, with the same error. -/
theorem checkRange_eq (start stop : Nat) : s.checkRange start stop = t.checkRange start stop := by
  unfold checkRange
  rw [h.length_eq hs ht, h.1]

/-- The same ranges cut out parts that are alike. -/
theorem substring (start stop : Nat) :
    SameResult Alike (s.substring start stop) (t.substring start stop) := by
  have hcheck := h.checkRange_eq hs ht start stop
  cases hc : s.checkRange start stop with
  | error e =>
    rw [hc] at hcheck
    simp only [Segment.substring, hc, ← hcheck, Except.map]
    exact .error e
  | ok u =>
    rw [hc] at hcheck
    simp only [Segment.substring, hc, ← hcheck, Except.map]
    have hin : (⟨start, stop⟩ : Span).Inside s.text 0 s.length := checkRange_eq_ok_iff.mp hc
    exact .ok (h.derive hs ht hin)

/-- The same offsets cut out ends that are alike. -/
theorem substringFrom (start : Nat) :
    SameResult Alike (s.substringFrom start) (t.substringFrom start) := by
  rw [Segment.substringFrom, Segment.substringFrom, ← h.length_eq hs ht]
  exact h.substring hs ht start s.length

/-- The empty segments at their ends are alike. -/
theorem tail : s.tail.Alike t.tail := by
  have hend : (⟨s.length, s.length⟩ : Span).Inside s.text 0 s.length :=
    ⟨by simp [hs.length_eq], by simp [hs.length_eq], Nat.zero_le _, Nat.le_refl _, Nat.le_refl _⟩
  rw [Segment.tail, Segment.tail, ← h.length_eq hs ht]
  exact h.derive hs ht hend

/-- The same characters stand at the same offsets. -/
theorem charAt_eq (n : Nat) : s.charAt n = t.charAt n := by
  unfold charAt
  rw [h.length_eq hs ht, h.1]

/-- The segments of these characters are alike. -/
theorem charSegmentAt (n : Nat) :
    SameResult Alike (s.charSegmentAt n) (t.charSegmentAt n) := by
  unfold Segment.charSegmentAt
  rw [← h.length_eq hs ht, ← h.charAt_eq hs ht]
  split_ifs
  · exact .ok (h.tail hs ht)
  · cases hc : s.charAt n with
    | error e => exact .error e
    | ok c =>
      obtain ⟨l, r, hcut, rfl⟩ := charAt_eq_ok hc
      have hin := Span.inside_of_cut l [c] r
      rw [← hcut, Text.byteLength_append, Text.byteLength_cons, Text.byteLength_nil,
        Nat.add_zero] at hin
      exact .ok (h.derive hs ht hin)

/-- Without the blanks at their edges they are alike still. -/
theorem trim : s.trim.Alike t.trim := by
  have hin := inside_trim hs
  unfold Segment.trim
  rw [← h.1, ← h.length_eq hs ht]
  simp only
  split_ifs
  · exact h
  · exact h.derive hs ht hin

/-- Split around the same separators, alike segments have alike pieces. -/
theorem splitAround {separators : List Span} (hsep : Span.InOrder s.text 0 separators)
    (limit : SplitLimit) :
    List.Forall₂ Alike (s.splitAround separators limit) (t.splitAround separators limit) := by
  have hpieces := Split.pieces_inOrder limit (hsep.sublist (Split.used_sublist limit separators))
  by_cases hnone : Split.used limit separators = []
  · rw [splitAround_eq_self hnone, splitAround_eq_self hnone]
    exact .cons h .nil
  · have hsep' := hsep
    rw [h.1] at hsep'
    rw [splitAround_eq_map hs hsep hnone, splitAround_eq_map ht hsep' hnone, ← h.1,
      List.forall₂_map_left_iff, List.forall₂_map_right_iff, List.forall₂_same]
    -- Each piece is cut out where a walk from the start of its segment leads.
    intro p hp
    rw [piece, piece, ← h.walkTo_eq]
    exact h.deriveAt hs ht (hpieces.inside hp) _

/-- Split around a pattern, they have pieces that are alike one by one. -/
theorem split (p : Pattern) (limit : SplitLimit) :
    List.Forall₂ Alike (s.split p limit) (t.split p limit) := by
  rw [Segment.split, Segment.split, ← h.1]
  exact h.splitAround hs ht (p.allMatches_inOrder s.text) limit

/-- They have lines that are alike one by one. -/
theorem lines : List.Forall₂ Alike s.lines t.lines := by
  rw [Segment.lines, Segment.lines, ← h.1]
  exact h.splitAround hs ht (LineBreak.spans_inOrder s.text) .keepTrailing

/-- A separator is refused by both, or splits both into pieces that are alike. -/
theorem splitText (separator : Text) (limit : SplitLimit) : SameResult (List.Forall₂ Alike)
    (s.splitText separator limit) (t.splitText separator limit) := by
  unfold Segment.splitText
  cases Split.literal? separator with
  | some c =>
    simp only
    rw [← h.1]
    exact .ok (h.splitAround hs ht (Split.occurrences_inOrder c [] s.text) limit)
  | none =>
    cases Pattern.compile {} separator with
    | error e => exact .error e
    | ok p => exact .ok (h.split hs ht p limit)

end WellPlaced

end Alike

/-! ## Parts of parts -/

/-- Before the end of a segment a part starts where the walk over all that is before it leads. -/
theorem positionAt_eq_advance {s : Segment} (hs : s.WellPlaced) {l r : Text}
    (htext : s.text = l ++ r) (hr : r ≠ []) :
    s.positionAt (byteLength l) = s.start.advance l r.head? := by
  rw [positionAt_eq_walkTo hs htext (.inl hr), walkTo_eq htext]

/-- So does what is cut out of a part, unless it is at the end of a part that has characters. -/
theorem positionAt_derive {s : Segment} (hs : s.WellPlaced) {l m t r : Text}
    (htext : s.text = l ++ (m ++ t) ++ r) (ht : t ≠ [] ∨ m = []) :
    (s.derive (byteLength l) (byteLength (l ++ (m ++ t)))).positionAt (byteLength m) =
      s.positionAt (byteLength (l ++ m)) := by
  have hpart := (isCut_derive_of_cut htext).wellPlaced hs
  have houter := hs.text_derive htext
  by_cases hnil : t = []
  · -- The part is empty, and is itself what is cut out of it.
    obtain rfl : m = [] := ht.resolve_left (not_not_intro hnil)
    rw [positionAt_eq_walkTo hpart houter (.inr (houter.trans hnil)), walkTo_eq houter,
      List.append_nil]
    rfl
  have hhead : (t ++ r).head? = t.head? := List.head?_append_of_ne_nil t hnil
  have hstart : s.positionAt (byteLength l) = s.start.advance l (m ++ (t ++ r)).head? :=
    positionAt_eq_advance hs (by rw [htext]; simp) (by simp [hnil])
  have hinner := positionAt_eq_advance hpart houter hnil
  have hdirect : s.positionAt (byteLength (l ++ m)) = s.start.advance (l ++ m) (t ++ r).head? :=
    positionAt_eq_advance hs (by rw [htext]; simp) (by simp [hnil])
  -- The walk over `l` and then over `m` is the walk over both.
  calc (s.derive (byteLength l) (byteLength (l ++ (m ++ t)))).positionAt (byteLength m)
    _ = (s.positionAt (byteLength l)).advance m t.head? := hinner
    _ = (s.start.advance l (m ++ (t ++ r)).head?).advance m (t ++ r).head? := by
      rw [hstart, hhead]
    _ = s.positionAt (byteLength (l ++ m)) := by
      rw [hdirect, Position.advance_append, List.head?_append]

/-- A part is alike to what is cut out of a larger part at the same place, unless it is at the end
of that and that has characters. -/
theorem derive_derive_alike {s : Segment} (hs : s.WellPlaced) {l l' m r' r : Text}
    (htext : s.text = l ++ (l' ++ m ++ r') ++ r) (hm : m ++ r' ≠ [] ∨ l' = []) :
    (s.derive (byteLength (l ++ l')) (byteLength (l ++ l' ++ m))).Alike
      ((s.derive (byteLength l) (byteLength (l ++ (l' ++ m ++ r')))).derive (byteLength l')
        (byteLength (l' ++ m))) := by
  have hpart := (isCut_derive_of_cut htext).wellPlaced hs
  have hdirect : s.text = l ++ l' ++ m ++ (r' ++ r) := by
    rw [htext]
    simp
  have hstart := positionAt_derive hs (l := l) (m := l') (t := m ++ r') (r := r)
    (by rw [htext, List.append_assoc l']) hm
  rw [← List.append_assoc l'] at hstart
  have hnested := hpart.text_derive (hs.text_derive htext)
  exact ((isCut_derive_of_cut hdirect).wellPlaced hs).alike
    ((isCut_derive_of_cut (hs.text_derive htext)).wellPlaced hpart)
    ((hs.text_derive hdirect).trans hnested.symm) rfl hstart.symm

/-- The same of spans, of which the inner one counts from the start of the outer one. -/
theorem derive_shift_alike {s : Segment} (hs : s.WellPlaced) {outer inner : Span}
    {low high low' high' : Nat} (hout : outer.Inside s.text low high)
    (hin : inner.Inside (s.derive outer.start outer.stop).text low' high')
    (hne : inner.start < inner.stop) :
    (s.derive (outer.start + inner.start) (outer.start + inner.stop)).Alike
      ((s.derive outer.start outer.stop).derive inner.start inner.stop) := by
  obtain ⟨l, h, r, htext, hl, hh⟩ := hout.cut
  have hpart := hs.text_derive htext
  rw [hl, hh] at hpart
  rw [hpart] at hin
  obtain ⟨l', m, r', rfl, hl', hm'⟩ := hin.cut
  have hm : m ≠ [] := by
    rintro rfl
    rw [List.append_nil] at hm'
    omega
  have halike := derive_derive_alike hs htext (.inl (by simp [hm]))
  rwa [List.append_assoc l l' m, Text.byteLength_append l l', Text.byteLength_append l (l' ++ m),
    hh, hm', hl, hl'] at halike

end Segment

end SourceText
