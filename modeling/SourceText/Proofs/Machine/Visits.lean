import SourceText.Proofs.Machine.Locator

/-!
# Offsets visited one after the other

Where an offset of a text is can be said by the line breaks of the whole text. Those that stop at
the offset or in front of it have been passed (`LineBreak.passed`), and a pair that the offset cuts
is not one of them. `Position.fromBreaks` is a line down from the start for each, and as many
columns along as there are characters behind the last one. A walk over all that is in front of the
offset leads to the same place (`Position.fromBreaks_append`).

Offsets that never go back cut what is left of a text again and again (`CutAt`). By induction on the
cuts, a walk that visits them one after the other finds each where a fresh walk does. That is so for
a `Tracker`, and for a `Locator` if the machine can count to the positions, although a locator scans
only what is settled between two cuts and may lag behind by a carriage return. If there is one to
which the machine cannot count, then both the locator that comes to it by visiting others and the
fresh one meet a number that is no count. `Visited` says all this of a list of offsets.
-/

namespace SourceText

open Text (byteLength isBoundary utf8)
open LineBreak (scan settled lastStop?)

namespace LineBreak

/-! ## The breaks in front of an offset -/

/-- The line breaks of a text that stop at offset `n` or in front of it. -/
def passed (text : Text) (n : Nat) : List Span := (spans text).filter fun s => s.stop ≤ n

/-- What is held back at a cut, and what is behind it, has breaks that stop behind the cut. -/
theorem lt_stop_of_held {a b r : Text} (hb : b = [] ∨ b = ['\r'] ∧ r.head? = some '\n') {s : Span}
    (hs : s ∈ scan (byteLength a) (utf8 (b ++ r))) : byteLength (a ++ b) < s.stop := by
  have hlt := lt_of_mem_scan hs
  rcases hb with rfl | ⟨rfl, hhead⟩
  · obtain ⟨hlow, -⟩ := (scan_inOrder a r).of_mem hs
    rw [List.append_nil]
    omega
  · -- The first of them is the pair that is cut.
    obtain ⟨r, rfl⟩ := List.head?_eq_some_iff.mp hhead
    have hcut : byteLength (a ++ ['\r']) = byteLength a + 1 := Text.byteLength_append _ _
    have hpair : byteLength (a ++ ['\r', '\n']) = byteLength a + 2 := Text.byteLength_append _ _
    rw [List.singleton_append, scan_pair, ← hpair] at hs
    rcases List.mem_cons.mp hs with rfl | hs
    · simp only
      omega
    · obtain ⟨hlow, -⟩ := (scan_inOrder _ r).of_mem hs
      omega

/-- The breaks that have been passed at a cut are those in what is settled there. -/
theorem passed_append (l r : Text) : passed (l ++ r) (byteLength l) = spans (settled l r) := by
  obtain ⟨b, hl, hapart, hb⟩ := exists_held l r
  generalize settled l r = a at *
  subst hl
  have hpassed : ∀ s ∈ spans a, s.stop ≤ byteLength (a ++ b) := by
    intro s hs
    rw [Text.byteLength_append]
    exact Nat.le_add_right_of_le (stop_le_of_mem_spans hs)
  have hahead : ∀ s ∈ scan (byteLength a) (utf8 (b ++ r)), ¬ s.stop ≤ byteLength (a ++ b) :=
    fun s hs => Nat.not_le.mpr (lt_stop_of_held hb hs)
  rw [List.append_assoc, passed, spans, scan_append hapart, Nat.zero_add, List.filter_append,
    ← spans, List.filter_eq_self.mpr fun s hs => decide_eq_true (hpassed s hs),
    List.filter_eq_nil_iff.mpr fun s hs => by simpa using hahead s hs, List.append_nil]

end LineBreak

namespace Position

/-- The position at offset `n` of a text that starts at `p`, by the line breaks in front of it. -/
def fromBreaks (p : Position) (text : Text) (n : Nat) : Position :=
  let passed := LineBreak.passed text n
  match passed.getLast? with
  | none => ⟨p.line, p.col + (Text.slice text 0 n).length⟩
  | some last => ⟨p.line + passed.length, (Text.slice text last.stop n).length⟩

/-- A walk over all that is in front of a cut leads to that position. -/
theorem fromBreaks_append (p : Position) (l r : Text) :
    p.fromBreaks (l ++ r) (byteLength l) = p.advance l r.head? := by
  -- All that is settled at the cut has been settled since the start of the text.
  obtain ⟨k, hk, hline, hcols⟩ := LineBreak.exists_settled_between p [] l r
  have hstart : settled [] (l ++ r) = [] := rfl
  simp only [hstart, List.nil_append, advance_nil] at hk hline hcols
  simp only [fromBreaks, LineBreak.passed_append, hk]
  rcases hcols with ⟨hnone, hcol⟩ | ⟨x, y, hxy, hlast, hcol⟩
  · -- The cut is on the first line.
    have hspans : LineBreak.spans k = [] := by simpa [lastStop?] using hnone
    have hslice := Text.slice_append [] l r
    rw [List.nil_append, Text.byteLength_nil] at hslice
    rw [hspans, List.length_nil, Nat.add_zero] at hline
    simp only [hspans, List.getLast?_nil, hslice]
    rw [← hline, ← hcol]
  · -- The last line in front of the cut is `y`.
    obtain ⟨last, hspans, hstop⟩ := Option.map_eq_some_iff.mp hlast
    simp only [hspans, hstop, hxy, Text.slice_append]
    rw [← hline, ← hcol, hxy]

end Position

/-! ## Visits -/

/-- The offsets are those of cuts of `l ++ r` behind `l`, of which none is in front of the one
before. -/
inductive CutAt : (l r : Text) → List Nat → Prop
  /-- There may be no more cuts. -/
  | nil {l r : Text} : CutAt l r []
  /-- The next cut is behind `m`. -/
  | cons {l r : Text} {offsets : List Nat} (m : Text) (h : CutAt (l ++ m) r offsets) :
    CutAt l (m ++ r) (byteLength (l ++ m) :: offsets)

/-- Boundaries that never go back are offsets of cuts. -/
theorem cutAt_of_sorted {text l r : Text} {offsets : List Nat} (htext : text = l ++ r)
    (hbehind : ∀ n ∈ offsets, byteLength l ≤ n)
    (hboundary : ∀ n ∈ offsets, isBoundary text n = true) (hsorted : offsets.Pairwise (· ≤ ·)) :
    CutAt l r offsets := by
  induction offsets generalizing l r with
  | nil => exact .nil
  | cons n rest ih =>
    rw [List.forall_mem_cons] at hbehind hboundary
    rw [List.pairwise_cons] at hsorted
    obtain ⟨l', r', htext', rfl⟩ := Text.isBoundary_iff.mp hboundary.1
    obtain ⟨m, rfl, rfl⟩ := Text.exists_middle (htext.symm.trans htext') hbehind.1
    exact .cons m (ih htext' hsorted.1 hboundary.2 hsorted.2)

/-- The positions at which a tracker stands that is moved on to one offset after the other. -/
def Tracker.visit (t : Tracker) : List Nat → List Position
  | [] => []
  | n :: rest => (t.advanceTo n).position :: (t.advanceTo n).visit rest

/-- The positions at which a locator stands that is moved on to one offset after the other. -/
def Locator.visit (t : Locator) : List Nat → Machine (List Position)
  | [] => pure []
  | n :: rest => do
    let t ← t.advanceTo n
    return t.position :: (← t.visit rest)

variable {p : Position} {text l r : Text} {offsets : List Nat}

/-- Each cut is found where the breaks in front of it tell. -/
theorem Tracker.visit_past (h : CutAt l r offsets) :
    (past p l r).visit offsets = offsets.map (p.fromBreaks (l ++ r)) := by
  induction h with
  | nil => rfl
  | cons m h ih =>
    rw [visit, advanceTo_past, ih, List.map_cons, ← List.append_assoc, Position.fromBreaks_append]
    rfl

/-- So it is by the machine, if it can count to all of them. -/
theorem Locator.visit_past_of_counted (h : CutAt l r offsets)
    (hbytes : byteLength (l ++ r) ≤ maxSignedCol)
    (hcounted : ∀ n ∈ offsets, (p.fromBreaks (l ++ r) n).Counted) :
    (past p l r).visit offsets = pure (offsets.map (p.fromBreaks (l ++ r))) := by
  induction h with
  | nil => rfl
  | cons m h ih =>
    rw [← List.append_assoc] at hbytes hcounted ⊢
    rw [List.forall_mem_cons, Position.fromBreaks_append] at hcounted
    rw [visit, advanceTo_past_of_counted hbytes hcounted.1, pure_bind, ih hbytes hcounted.2,
      pure_bind, List.map_cons, Position.fromBreaks_append]
    rfl

/-- At the first of them to which it cannot count, the machine meets a number that is no count. -/
theorem Locator.visit_past_meets (h : CutAt l r offsets)
    (hbytes : byteLength (l ++ r) ≤ maxSignedCol) (hfrom : (p.advance l r.head?).Counted)
    (huncounted : ∃ n ∈ offsets, ¬ (p.fromBreaks (l ++ r) n).Counted) :
    ((past p l r).visit offsets).Meets .count := by
  induction h with
  | nil => simp at huncounted
  | @cons l r offsets m h ih =>
    rw [← List.append_assoc] at hbytes huncounted
    rw [visit]
    by_cases hnext : (p.advance (l ++ m) r.head?).Counted
    · -- It is a later one.
      rw [advanceTo_past_of_counted hbytes hnext, pure_bind]
      obtain ⟨n, hn, hn'⟩ := huncounted
      rcases List.mem_cons.mp hn with rfl | hn
      · rw [Position.fromBreaks_append] at hn'
        exact absurd hnext hn'
      · exact (ih hbytes hnext ⟨n, hn, hn'⟩).bind
    · exact (advanceTo_past_meets hbytes hfrom hnext).bind

/-- Visited one after the other, the offsets of a text that starts at `p` are where fresh walks find
them, and where the line breaks tell. -/
structure Visited (p : Position) (text : Text) (offsets : List Nat) : Prop where
  /-- A tracker finds them there on the way, -/
  tracker : (Tracker.start text p).visit offsets = offsets.map (p.fromBreaks text)
  /-- and so does a fresh one that is moved on to one of them at once. -/
  fresh : ∀ n ∈ offsets, ((Tracker.start text p).advanceTo n).position = p.fromBreaks text n
  /-- In a text that can be in memory a locator finds them there too, and so does a fresh one, if
  the machine can count to their positions. -/
  counted : byteLength text ≤ maxSignedCol → (∀ n ∈ offsets, (p.fromBreaks text n).Counted) →
    (Locator.start text p).visit offsets = pure (offsets.map (p.fromBreaks text)) ∧
      ∀ n ∈ offsets, Locator.position <$> (Locator.start text p).advanceTo n =
        pure (p.fromBreaks text n)
  /-- If there is one to which it can not, a locator meets a number that is no count, and so does a
  fresh one that is moved on to it at once. -/
  uncounted : byteLength text ≤ maxSignedCol → p.Counted →
    ∀ n ∈ offsets, ¬ (p.fromBreaks text n).Counted →
      ((Locator.start text p).visit offsets).Meets .count ∧
        ((Locator.start text p).advanceTo n).Meets .count

/-- Boundaries that never go back can be visited one after the other. -/
theorem visited_of_sorted (hboundary : ∀ n ∈ offsets, isBoundary text n = true)
    (hsorted : offsets.Pairwise (· ≤ ·)) : Visited p text offsets := by
  have hcuts : CutAt [] text offsets :=
    cutAt_of_sorted rfl (fun n _ => Nat.zero_le n) hboundary hsorted
  refine
    { tracker := Tracker.visit_past hcuts
      fresh := fun n hn => ?_
      counted := fun hbytes hcounted =>
        ⟨Locator.visit_past_of_counted hcuts hbytes hcounted, fun n hn => ?_⟩
      uncounted := fun hbytes hp n hn huncounted =>
        ⟨Locator.visit_past_meets hcuts hbytes hp ⟨n, hn, huncounted⟩, ?_⟩ }
  · obtain ⟨l, r, rfl, rfl⟩ := Text.isBoundary_iff.mp (hboundary n hn)
    rw [Position.fromBreaks_append]
    exact congrArg Tracker.position (Tracker.advanceTo_past p [] l r)
  · obtain ⟨l, r, rfl, rfl⟩ := Text.isBoundary_iff.mp (hboundary n hn)
    have hthere := hcounted _ hn
    rw [Position.fromBreaks_append] at hthere ⊢
    have hmove : (Locator.start (l ++ r) p).advanceTo (byteLength l) = pure (.past p l r) :=
      Locator.advanceTo_past_of_counted (l := []) hbytes hthere
    rw [hmove, map_pure]
    rfl
  · obtain ⟨l, r, rfl, rfl⟩ := Text.isBoundary_iff.mp (hboundary n hn)
    rw [Position.fromBreaks_append] at huncounted
    exact Locator.advanceTo_past_meets (l := []) hbytes hp huncounted

/-- Between the two characters of a pair the walk is still on the line of the first, however often
it stops there. On the greatest line there is no break that could be counted. -/
theorem visited_cut_pair :
    Visited ⟨5, 3⟩ "é\r\nb\r".toList [2, 3, 3, 4, 5, 6] ∧
      (Locator.start "é\r\nb\r".toList ⟨5, 3⟩).visit [2, 3, 3, 4, 5, 6] =
        pure [⟨5, 4⟩, ⟨5, 5⟩, ⟨5, 5⟩, ⟨6, 0⟩, ⟨6, 1⟩, ⟨7, 0⟩] ∧
      ((Locator.start ['\n'] ⟨maxCount, 0⟩).visit [0, 1]).Meets .count := by
  have hpair : Visited ⟨5, 3⟩ "é\r\nb\r".toList [2, 3, 3, 4, 5, 6] :=
    visited_of_sorted (by decide) (by decide)
  have hlast : Visited ⟨maxCount, 0⟩ ['\n'] [0, 1] := visited_of_sorted (by decide) (by decide)
  exact ⟨hpair, (hpair.counted (by decide) (by decide)).1,
    (hlast.uncounted (by decide) (by decide) 1 (by decide) (by decide)).1⟩

end SourceText
