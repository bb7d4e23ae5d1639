import Mathlib.Data.List.Induction
import Mathlib.Logic.Function.Iterate
import SourceText.Proofs.PastEnd

/-!
# Neighbours of a segment

The neighbours of a segment that has been cut out of its document are the characters of the document
on both sides of it. They are cut out of the root anew, so nothing but the offsets of the segment
counts: two segments that end at one offset have the same character behind them
(`charAfter_of_cut`), and two that start at one have the same in front (`charBefore_of_cut`).

Each neighbour starts where its other neighbour stops. So a walk from neighbour to neighbour comes
to the characters of the document one after the other, in either direction, and when there are none
left it stays where the document ends (`neighbours_walk`).
-/

namespace SourceText.Segment

open Text (byteLength)

variable {s t : Segment} {l m r : Text} {c : Char}

/-! ## Segments in one place -/

/-- A segment is determined by its place and its start. -/
theorem WellPlaced.ext (hs : s.WellPlaced) (ht : t.WellPlaced) (hdocument : s.document = t.document)
    (hroot : s.isRoot = t.isRoot) (hfrom : s.startOffset = t.startOffset)
    (hto : s.stopOffset = t.stopOffset) (hstart : s.start = t.start) : s = t := by
  obtain ⟨before, after, hs⟩ := hs
  obtain ⟨before', after', ht⟩ := ht
  have htext : s.text = t.text := by rw [Segment.text, Segment.text, hdocument, hfrom, hto]
  have hstop : s.stop = t.stop := by rw [hs.stop, ht.stop, hstart, htext]
  obtain ⟨⟩ := s
  obtain ⟨⟩ := t
  simp only at hdocument hroot hfrom hto hstart hstop
  subst hdocument hroot hfrom hto hstart hstop
  rfl

/-- The empty part at the start of a part that starts with the segment is that of the segment. -/
theorem derive_zero_derive_zero (hs : s.WellPlaced) (htext : s.text = l ++ r) :
    (s.derive 0 (byteLength l)).derive 0 0 = s.derive 0 0 := by
  have hpart : (s.derive 0 (byteLength l)).WellPlaced :=
    (isCut_derive_of_cut (l := []) htext).wellPlaced hs
  have hinner : ((s.derive 0 (byteLength l)).derive 0 0).WellPlaced :=
    (isCut_derive_of_cut (l := []) (m := []) rfl).wellPlaced hpart
  have houter : (s.derive 0 0).WellPlaced :=
    (isCut_derive_of_cut (l := []) (m := []) rfl).wellPlaced hs
  refine hinner.ext houter rfl rfl rfl rfl ?_
  exact positionAt_zero hpart

/-- A part that goes on to the end of the segment has the same empty part behind it. -/
theorem tail_derive (hs : s.WellPlaced) (htext : s.text = l ++ m) (hm : m ≠ []) :
    (s.derive (byteLength l) (byteLength (l ++ m))).tail = s.tail := by
  obtain rfl | ⟨b, c, rfl⟩ := m.eq_nil_or_concat'
  · exact absurd rfl hm
  have hcut : s.text = l ++ (b ++ [c]) ++ [] := by rw [htext, List.append_nil]
  have hpart := (isCut_derive_of_cut hcut).wellPlaced hs
  have hlen : (s.derive (byteLength l) (byteLength (l ++ (b ++ [c])))).length =
      byteLength (b ++ [c]) := by rw [hpart.length_eq, hs.text_derive hcut]
  have hlen' : s.length = byteLength l + byteLength (b ++ [c]) := by
    rw [hs.length_eq, htext, Text.byteLength_append]
  have hoffset :
      s.startOffset + byteLength l + byteLength (b ++ [c]) = s.startOffset + s.length := by
    rw [hlen', Nat.add_assoc]
  have htail := (isCut_tail hpart).wellPlaced hpart
  refine htail.ext ((isCut_tail hs).wellPlaced hs) rfl rfl ?_ ?_ ?_
  · change s.startOffset + byteLength l + _ = _
    rw [hlen, hoffset]
    rfl
  · change s.startOffset + byteLength l + _ = _
    rw [hlen, hoffset]
    rfl
  · -- Both are just past the last character.
    change (s.derive _ _).positionAt _ = s.positionAt s.length
    rw [hlen, positionAt_derive_end hs hcut, hs.length_eq,
      positionAt_eq_pastEnd hs (by simp [htext]),
      pastEnd_eq_justPast hs (by rw [htext, List.append_assoc])]

/-- An empty part is its own end. -/
theorem tail_of_isEmpty (hs : s.WellPlaced) (hpart : s.isRoot = false) (he : s.isEmpty = true) :
    s.tail = s := by
  have hlen : s.length = 0 := by rw [hs.length_eq, hs.isEmpty_iff.mp he, Text.byteLength_nil]
  refine ((isCut_tail hs).wellPlaced hs).ext hs rfl hpart.symm ?_ ?_ ?_
  · change s.startOffset + s.length = s.startOffset
    rw [hlen, Nat.add_zero]
  · change s.startOffset + s.length = s.stopOffset
    rw [hlen, Nat.add_zero]
    exact beq_iff_eq.mp he
  · rw [tail, hlen]
    exact positionAt_zero hs

/-! ## Neighbours -/

/-- Behind a segment that ends its document is the empty part at its end. -/
theorem charAfter_of_end (h : byteLength s.document.text ≤ s.stopOffset) : s.charAfter = s.tail :=
  if_pos (.inr h)

/-- In front of a segment that starts its document is the empty part at its start. -/
theorem charBefore_of_start (h : s.startOffset = 0) : s.charBefore = s.derive 0 0 :=
  if_pos (.inr h)

/-! ## Walks -/

variable {d : Document}

/-- The walk onward comes to each character after as many steps as it takes to pass it. -/
theorem iterate_charAfter (htext : d.text = l ++ c :: r) :
    charAfter^[l.length + 1] ((ofDocument d).derive 0 0) =
      (ofDocument d).derive (byteLength l) (byteLength (l ++ [c])) := by
  induction l using List.reverseRecOn generalizing c r with
  | nil => exact charAfter_of_cut rfl htext rfl
  | append_singleton l a ih =>
    -- The step before has come to `a`, which stops where `c` starts.
    have hprevious := ih (htext.trans (List.append_assoc l [a] (c :: r)))
    rw [Function.iterate_succ_apply', List.length_append, List.length_singleton, hprevious]
    exact charAfter_of_cut rfl htext (Nat.zero_add _)

/-- The walk backward comes to each character after as many steps as it takes to pass it. -/
theorem iterate_charBefore (htext : d.text = l ++ c :: r) :
    charBefore^[r.length + 1] (ofDocument d).tail =
      (ofDocument d).derive (byteLength l) (byteLength (l ++ [c])) := by
  induction r generalizing l c with
  | nil =>
    refine charBefore_of_cut rfl htext ?_
    rw [← htext]
    exact Nat.zero_add _
  | cons a r ih =>
    -- The step before has come to `a`, which starts where `c` stops.
    have hprevious := ih (l := l ++ [c]) (c := a) (by rw [htext, List.append_assoc]; rfl)
    rw [Function.iterate_succ_apply', List.length_cons, hprevious]
    exact charBefore_of_cut rfl htext (Nat.zero_add _)

/-- Where the document ends, the walk onward stays. -/
theorem charAfter_tail_root : (ofDocument d).tail.charAfter = (ofDocument d).tail := by
  have hroot := wellPlaced_ofDocument d
  rw [charAfter_of_end (Nat.le_of_eq (Nat.zero_add (byteLength d.text)).symm)]
  exact tail_of_isEmpty ((isCut_tail hroot).wellPlaced hroot) rfl (beq_self_eq_true _)

/-- Where it starts, the walk backward does. -/
theorem charBefore_start_root :
    ((ofDocument d).derive 0 0).charBefore = (ofDocument d).derive 0 0 := by
  rw [charBefore_of_start rfl]
  exact derive_zero_derive_zero (wellPlaced_ofDocument d) (l := []) rfl

/-- The walk onward, with more steps than there are characters, has come to the end. -/
theorem iterate_charAfter_of_lt {k : Nat} (hk : d.text.length < k) :
    charAfter^[k] ((ofDocument d).derive 0 0) = (ofDocument d).tail := by
  have hroot := wellPlaced_ofDocument d
  have hfirst : charAfter^[d.text.length + 1] ((ofDocument d).derive 0 0) =
      (ofDocument d).tail := by
    obtain hnil | ⟨l, c, htext⟩ := d.text.eq_nil_or_concat'
    · -- There is no character, and the start is the end.
      have hstart : (ofDocument d).derive 0 0 = (ofDocument d).tail := by
        rw [tail, hroot.length_eq, text_ofDocument, hnil, Text.byteLength_nil]
      rw [hstart]
      exact Function.iterate_fixed charAfter_tail_root _
    · -- The last step but one has come to the last character.
      have hlast := tail_derive hroot ((text_ofDocument d).trans htext) (List.cons_ne_nil c [])
      have hend : byteLength d.text ≤
          ((ofDocument d).derive (byteLength l) (byteLength (l ++ [c]))).stopOffset := by
        rw [htext]
        exact Nat.le_of_eq (Nat.zero_add _).symm
      rw [Function.iterate_succ_apply', htext, List.length_append, List.length_singleton,
        iterate_charAfter htext, charAfter_of_end hend, hlast]
  obtain ⟨j, rfl⟩ := Nat.exists_eq_add_of_lt hk
  rw [Nat.add_right_comm, Nat.add_comm _ j, Function.iterate_add_apply, hfirst]
  exact Function.iterate_fixed charAfter_tail_root j

/-- The walk backward has come to the start. -/
theorem iterate_charBefore_of_lt {k : Nat} (hk : d.text.length < k) :
    charBefore^[k] (ofDocument d).tail = (ofDocument d).derive 0 0 := by
  have hroot := wellPlaced_ofDocument d
  have hfirst : charBefore^[d.text.length + 1] (ofDocument d).tail =
      (ofDocument d).derive 0 0 := by
    cases htext : d.text with
    | nil =>
      have hstart : (ofDocument d).tail = (ofDocument d).derive 0 0 := by
        rw [tail, hroot.length_eq, text_ofDocument, htext, Text.byteLength_nil]
      rw [hstart]
      exact Function.iterate_fixed charBefore_start_root _
    | cons c r =>
      rw [Function.iterate_succ_apply', List.length_cons, iterate_charBefore (l := []) htext,
        charBefore_of_start rfl]
      exact derive_zero_derive_zero hroot ((text_ofDocument d).trans htext)
  obtain ⟨j, rfl⟩ := Nat.exists_eq_add_of_lt hk
  rw [Nat.add_right_comm, Nat.add_comm _ j, Function.iterate_add_apply, hfirst]
  exact Function.iterate_fixed charBefore_start_root j

/-- The two walks through the document `d`, onward from the empty part at its start and backward
from that at its end. -/
structure Walks (d : Document) (first last : Segment) : Prop where
  /-- Both come to each character, as the part that can be cut out of the root, the one when it has
  passed all that is in front of it and the other all that is behind. -/
  character : ∀ l c r, d.text = l ++ c :: r →
    ∃ t, (ofDocument d).substring (byteLength l) (byteLength (l ++ [c])) = .ok t ∧ t.text = [c] ∧
      charAfter^[l.length + 1] first = t ∧ charBefore^[r.length + 1] last = t
  /-- From then on the one stays at the end, -/
  stop : ∀ k, d.text.length < k → charAfter^[k] first = last
  /-- and the other at the start. -/
  start : ∀ k, d.text.length < k → charBefore^[k] last = first

/-- The neighbours of a part of the document `d` are the characters on both sides, as parts of the
root. -/
structure HasNeighbours (d : Document) (s : Segment) : Prop where
  /-- If it does not start the document, a character stops where it starts. -/
  charBefore : 0 < s.startOffset → ∃ l c r, d.text = l ++ c :: r ∧
    s.startOffset = byteLength (l ++ [c]) ∧ s.charBefore.text = [c] ∧
    (ofDocument d).substring (byteLength l) s.startOffset = .ok s.charBefore
  /-- If it does not end the document, a character starts where it stops. -/
  charAfter : s.stopOffset < byteLength d.text → ∃ l c r, d.text = l ++ c :: r ∧
    s.stopOffset = byteLength l ∧ s.charAfter.text = [c] ∧
    (ofDocument d).substring s.stopOffset (byteLength (l ++ [c])) = .ok s.charAfter

/-- The part of a root between two cuts with one character between them. -/
theorem substring_root_of_cut (htext : d.text = l ++ c :: r) :
    (ofDocument d).substring (byteLength l) (byteLength (l ++ [c])) =
        .ok ((ofDocument d).derive (byteLength l) (byteLength (l ++ [c]))) ∧
      ((ofDocument d).derive (byteLength l) (byteLength (l ++ [c]))).text = [c] := by
  have hcut : (ofDocument d).text = l ++ [c] ++ r := by
    rw [text_ofDocument, htext]
    simp
  exact ⟨substring_of_cut (wellPlaced_ofDocument d) hcut,
    (wellPlaced_ofDocument d).text_derive hcut⟩

/-- A segment that is no root has the neighbours in its document: the characters that a step from
its end and a step back from its start lead to. -/
theorem Reachable.hasNeighbours (hs : Reachable d s) (hpart : s.isRoot = false) :
    HasNeighbours d s := by
  obtain ⟨⟨before, after, h⟩, rfl⟩ := hs.wellPlaced
  constructor
  · -- The text before the segment ends with the character before it.
    intro hpos
    obtain rfl | ⟨l, c, rfl⟩ := before.eq_nil_or_concat'
    · rw [h.startOffset] at hpos
      exact absurd hpos (Nat.lt_irrefl 0)
    · have htext : s.document.text = l ++ c :: (s.text ++ after) := by
        rw [h.text]
        simp
      obtain ⟨hsub, hchar⟩ := substring_root_of_cut htext
      have hbefore := charBefore_of_cut hpart htext h.startOffset
      refine ⟨l, c, s.text ++ after, htext, h.startOffset, ?_, ?_⟩
      · rw [hbefore]
        exact hchar
      · rw [hbefore, h.startOffset]
        exact hsub
  · -- The text behind it begins with the character after it.
    intro hlt
    cases after with
    | nil =>
      rw [h.stopOffset, h.text, List.append_nil] at hlt
      exact absurd hlt (Nat.lt_irrefl _)
    | cons c r =>
      obtain ⟨hsub, hchar⟩ := substring_root_of_cut h.text
      have hafter := charAfter_of_cut hpart h.text h.stopOffset
      refine ⟨before ++ s.text, c, r, h.text, h.stopOffset, ?_, ?_⟩
      · rw [hafter]
        exact hchar
      · rw [hafter, h.stopOffset]
        exact hsub

/-- From neighbour to neighbour, the characters of a document are walked through in either
direction, each of them where the root has it; and so are the neighbours of any part. -/
theorem neighbours_walk (d : Document) :
    (∃ first last, (ofDocument d).substring 0 0 = .ok first ∧
      (ofDocument d).substring (ofDocument d).length (ofDocument d).length = .ok last ∧
      Walks d first last) ∧
    ∀ s, Reachable d s → s.isRoot = false → HasNeighbours d s := by
  have hroot := wellPlaced_ofDocument d
  have hfirst := substring_empty hroot (l := []) rfl
  have hlast := substring_empty hroot (List.append_nil _).symm
  rw [← hroot.length_eq] at hlast
  refine ⟨⟨_, _, hfirst, hlast, ?_⟩, fun s hs hpart => hs.hasNeighbours hpart⟩
  exact
    { character := fun l c r htext => by
        obtain ⟨hsub, hchar⟩ := substring_root_of_cut htext
        exact ⟨_, hsub, hchar, iterate_charAfter htext, iterate_charBefore htext⟩
      stop := fun k hk => iterate_charAfter_of_lt hk
      start := fun k hk => iterate_charBefore_of_lt hk }

/-- The walk through `"\r\né"` comes to the line feed on the line of the carriage return, and from
the last character to the end on its line; in front of the second line is the line feed. -/
theorem neighbours_walk_line_break :
    let d : Document := ⟨"\r\né".toList, [], ⟨0, 0⟩⟩
    let line : Segment := ⟨d, false, 2, 4, ⟨1, 0⟩, ⟨1, 0⟩⟩
    ∃ first last, Walks d first last ∧ (charAfter^[2] first).start = ⟨0, 1⟩ ∧
      (charAfter^[4] first).start = ⟨1, 1⟩ ∧ line ∈ (ofDocument d).lines ∧ HasNeighbours d line ∧
      line.charBefore.start = ⟨0, 1⟩ := by
  intro d line
  obtain ⟨⟨first, last, hfirst, -, hwalks⟩, hneighbours⟩ := neighbours_walk d
  have hline : line ∈ (ofDocument d).lines := by decide
  obtain rfl := Except.ok.inj hfirst
  exact ⟨_, last, hwalks, by decide, by decide, hline,
    hneighbours line (.step .root (.lines hline)) rfl, by decide⟩

end SourceText.Segment
