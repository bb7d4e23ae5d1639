import SourceText.Proofs.PastEnd

/-!
# A segment cut in two

The start of a part is found by a walk through the segment, and its end by asking where the last
character of its own text stands. The two go by different rules at a line break: the walk is on the
next line as soon as the break is complete, while the end stays with the break's last character. At
a cut they meet all the same (`Segment.JoinedAt`). The walk goes on from one part into the other
(`EndPosition.of_append`), so the second part ends where the whole does, and what lies between the
end of the first part and the start of the second is the one step past the character in front of the
cut (`joinedAt_of_cut`). A cut in front of the last character tells where the segment itself ends
(`stop_eq_start_of_last`).

Ends keep their columns as signed numbers, so the column just past each character has to be one
(`Segment.CharsFit`). Lines have no bound here; that both parts are found if the machine can count
to the last line of the segment is left to `Proofs.Machine.Coordinates`.
-/

namespace SourceText

open Text (byteLength isBoundary)

namespace Segment

variable {s : Segment}

/-- The columns of the characters, and the one just past each of them, are signed numbers. -/
def CharsFit (s : Segment) : Prop :=
  ∀ l c r, s.text = l ++ c :: r → (s.start.advance l (some c)).col + 1 ≤ maxSignedCol

/-- If the columns of a document fit, so do those of the characters of all its segments. -/
theorem Reachable.charsFit {d : Document} (hs : Reachable d s) (hcols : d.ColumnsFit) :
    s.CharsFit := by
  obtain ⟨rfl, before, after, h⟩ := hs.aligned hcols
  intro l c r htext
  have hstart : s.start.col ≤ s.document.start.col + before.length := h.start_col_le
  have hwalk := Position.col_advance_le s.start l (some c)
  have hlen : before.length + (l.length + 1) ≤ s.document.text.length := by
    rw [h.lies.text, htext]
    simp only [List.length_append, List.length_cons]
    omega
  unfold Document.ColumnsFit at hcols
  omega

/-- The last character of the part `p` completes a line break of `s`, in which `p` stops at offset
`k`. -/
def CompletesBreak (s p : Segment) (k : Nat) : Prop :=
  p.text.getLast? = some '\n' ∨ p.text.getLast? = some '\r' ∧ Text.charAt? s.text k ≠ some '\n'

/-- The parts `p` and `q` into which offset `k` cuts the segment `s` share its text, and their
coordinates join up. -/
structure JoinedAt (s p q : Segment) (k : Nat) : Prop where
  /-- The two read on from each other. -/
  text : p.text ++ q.text = s.text
  /-- The first is as long as the offset says. -/
  length : byteLength p.text = k
  /-- The first starts where the segment does. -/
  start : p.start = s.start
  /-- The second ends where the segment does. -/
  stop : q.stop = s.stop
  /-- Behind a line break the second starts the next line. -/
  nextLine : s.CompletesBreak p k → q.start = ⟨p.stop.line + 1, 0⟩
  /-- Elsewhere it starts in the next column. -/
  sameLine : ¬ s.CompletesBreak p k →
    q.start.line = p.stop.line ∧ (q.start.col : Int) = p.stop.col + 1

/-- A part ends at its last character, which the walk to it from the part's start finds. -/
theorem stop_derive_concat (hs : s.WellPlaced) {l b r : Text} {c : Char}
    (htext : s.text = l ++ (b ++ [c]) ++ r) :
    (s.derive (byteLength l) (byteLength (l ++ (b ++ [c])))).stop =
      EndPosition.of (s.positionAt (byteLength l)) (b ++ [c]) := by
  obtain ⟨before, after, h⟩ := (isCut_derive_of_cut htext).wellPlaced hs
  rw [h.stop, hs.text_derive htext]
  rfl

/-- The two parts that a cut makes join up. -/
theorem joinedAt_of_cut (hs : s.WellPlaced) (hfit : s.CharsFit) {b r : Text} {c : Char}
    (htext : s.text = b ++ [c] ++ r) (hr : r ≠ []) :
    s.JoinedAt (s.derive 0 (byteLength (b ++ [c]))) (s.derive (byteLength (b ++ [c])) s.length)
      (byteLength (b ++ [c])) := by
  have hne : s.text ≠ [] := by simp [htext]
  have hfirst : s.text = [] ++ (b ++ [c]) ++ r := htext
  have hsecond : s.text = (b ++ [c]) ++ r ++ [] := htext.trans (List.append_nil _).symm
  have hlen : s.length = byteLength (b ++ [c] ++ r) := by rw [hs.length_eq, htext]
  have hp : (s.derive 0 (byteLength (b ++ [c]))).text = b ++ [c] := hs.text_derive hfirst
  have hq : (s.derive (byteLength (b ++ [c])) s.length).text = r := by
    rw [hlen]
    exact hs.text_derive hsecond
  -- The character in front of the cut, where the walk comes to it.
  have hpstop : (s.derive 0 (byteLength (b ++ [c]))).stop =
      ⟨(s.start.advance b (some c)).line, (s.start.advance b (some c)).col⟩ := by
    have hcol := hfit b c r (by rw [htext, List.append_assoc]; rfl)
    have hend := stop_derive_concat hs hfirst
    rw [List.nil_append, Text.byteLength_nil, positionAt_zero hs, EndPosition.of_concat,
      signedCol_of_le hcol] at hend
    rw [hend]
    simp
  -- The second part starts one step behind it.
  have hqstart : (s.derive (byteLength (b ++ [c])) s.length).start =
      (s.start.advance b (some c)).after c r.head? := by
    rw [← Position.advance_concat]
    exact positionAt_eq_advance hs htext hr
  have hbreak : s.CompletesBreak (s.derive 0 (byteLength (b ++ [c]))) (byteLength (b ++ [c])) ↔
      c = '\n' ∨ c = '\r' ∧ r.head? ≠ some '\n' := by
    unfold CompletesBreak
    rw [hp, List.getLast?_concat, htext, Text.charAt?_append, Option.some_inj, Option.some_inj]
  refine
    { text := by rw [hp, hq, htext]
      length := by rw [hp]
      start := positionAt_zero hs
      stop := ?_
      nextLine := fun h => ?_
      sameLine := fun h => ?_ }
  · obtain ⟨before, after, hlies⟩ := hs
    obtain ⟨before', after', hlies'⟩ := (hlen ▸ isCut_derive_of_cut hsecond :
      s.IsCut (s.derive (byteLength (b ++ [c])) s.length)).wellPlaced ⟨before, after, hlies⟩
    calc (s.derive (byteLength (b ++ [c])) s.length).stop
      _ = EndPosition.of (s.start.advance (b ++ [c]) r.head?) r := by
        rw [hlies'.stop, hq, hqstart, Position.advance_concat]
      _ = EndPosition.of s.start (b ++ [c] ++ r) := (EndPosition.of_append _ _ hr).symm
      _ = s.stop := by rw [hlies.stop, htext]
  · rw [hqstart, hpstop, Position.after, if_pos (hbreak.mp h)]
  · rw [hqstart, hpstop, Position.after, if_neg fun hc => h (hbreak.mpr hc)]
    exact ⟨rfl, rfl⟩

/-- The last character can be cut out, and the segment ends where it starts. -/
theorem stop_eq_start_of_last (hs : s.WellPlaced) (hfit : s.CharsFit) {l : Text} {c : Char}
    (htext : s.text = l ++ [c]) :
    ∃ t, s.charSegmentAt (byteLength l) = .ok t ∧ t.text = [c] ∧
      s.stop = ⟨t.start.line, t.start.col⟩ := by
  have hpart := hs.text_derive (htext.trans (List.append_nil _).symm)
  refine ⟨_, charSegmentAt_of_cut hs htext, hpart, ?_⟩
  have hcol := hfit l c [] htext
  have hstart : s.positionAt (byteLength l) = s.start.advance l (some c) :=
    positionAt_eq_advance hs htext (List.cons_ne_nil c [])
  obtain ⟨before, after, hlies⟩ := hs
  change s.stop = ⟨(s.positionAt (byteLength l)).line, (s.positionAt (byteLength l)).col⟩
  rw [hstart, hlies.stop, htext, EndPosition.of_concat, signedCol_of_le hcol]
  simp

/-- Wherever a segment that has characters is cut in two, the coordinates of the two parts join up,
and it ends where its last character starts. -/
theorem Reachable.cut_in_two {d : Document} (hs : Reachable d s) (hfit : s.CharsFit)
    (hne : s.isEmpty = false) :
    (∀ k, 0 < k → k < s.length → isBoundary s.text k = true →
      ∃ p q, s.substring 0 k = .ok p ∧ s.substring k s.length = .ok q ∧ s.JoinedAt p q k) ∧
    ∃ l c t, s.text = l ++ [c] ∧ s.charSegmentAt (byteLength l) = .ok t ∧ t.text = [c] ∧
      s.stop = ⟨t.start.line, t.start.col⟩ := by
  obtain ⟨hplaced, -⟩ := hs.wellPlaced
  constructor
  · intro k hpos hlt hk
    obtain ⟨l, r, htext, rfl⟩ := Text.isBoundary_iff.mp hk
    have hlen : s.length = byteLength (l ++ r) := by rw [hplaced.length_eq, htext]
    -- Neither side of the cut is empty.
    have hr : r ≠ [] := by
      rintro rfl
      rw [List.append_nil] at hlen
      omega
    obtain rfl | ⟨b, c, rfl⟩ := l.eq_nil_or_concat'
    · exact absurd hpos (Nat.lt_irrefl 0)
    · have hfirst := substring_of_cut hplaced (l := []) htext
      have hsecond := substring_of_cut hplaced (htext.trans (List.append_nil _).symm)
      rw [← hlen] at hsecond
      exact ⟨_, _, hfirst, hsecond, joinedAt_of_cut hplaced hfit htext hr⟩
  · obtain hnil | ⟨l, c, htext⟩ := s.text.eq_nil_or_concat'
    · rw [hplaced.isEmpty_iff.mpr hnil] at hne
      cases hne
    · obtain ⟨t, ht⟩ := stop_eq_start_of_last hplaced hfit htext
      exact ⟨l, c, t, htext, ht⟩

end Segment

end SourceText
