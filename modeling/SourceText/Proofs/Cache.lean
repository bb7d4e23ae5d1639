import SourceText.Proofs.WholeRegion

/-!
# The pattern for whole texts is kept

Whether a whole region matches may have to be decided by a pattern that is read from the text of the
pattern searched for. A matcher reads it when it is first needed and keeps it for as long as it
searches for the same pattern. `Pattern.verdict` is the decision without anything that is kept: it
depends on the pattern and on the text of the region. What a matcher keeps is always what it would
read (`Coherent.wholePattern_eq`), so its answer is the verdict, and so are the current match and
the next search that it is left with (`Coherent.matchesRegion_eq`). Two matchers over one segment
therefore cannot be told apart by that call, whatever has been called on them before, if they have
the same region and search for the same pattern (`matchesRegion_agrees`).
-/

namespace SourceText

open Text (byteLength)

/-- The match of a whole text, if there is one, with the pattern for whole texts read anew. -/
def Pattern.verdict (p : Pattern) (text : Text) : Except SyntaxError (Option Match) :=
  match p.findFrom text 0 with
  | none => .ok none
  | some found =>
    if found.span = ⟨0, byteLength text⟩ then .ok (some found)
    else if found.span.start = 0 then
      (compile {} p.wholeSource).map fun whole => whole.findFrom text 0
    else .ok none

namespace Matcher

variable {m m' : Matcher}

/-- The answer about the whole region is the verdict on its text, and what is kept for the next time
makes no difference to it. -/
theorem Coherent.matchesRegion_eq (hm : m.Coherent) :
    ∃ whole, m.matchesRegion =
      (m.pattern.verdict m.regionText).map fun found => settle { m with whole := whole } found := by
  unfold matchesRegion Pattern.verdict
  simp only [show Text.slice m.segment.text m.region.start m.region.stop = m.regionText from rfl]
  cases m.pattern.findFrom m.regionText 0 with
  | none => exact ⟨m.whole, rfl⟩
  | some f =>
    simp only
    split_ifs
    · exact ⟨m.whole, rfl⟩
    · rw [hm.wholePattern_eq]
      cases Pattern.compile {} m.pattern.wholeSource with
      | error e => exact ⟨m.whole, rfl⟩
      | ok q => exact ⟨some q, rfl⟩
    · exact ⟨m.whole, rfl⟩

/-- Two answers about a whole region are the same, and leave the same current match and the same
place for the next search. -/
inductive SameAnswer : Except Pattern.SyntaxError (Bool × Matcher) →
    Except Pattern.SyntaxError (Bool × Matcher) → Prop where
  /-- A pattern cannot be read, and the error is the same. -/
  | error (e : Pattern.SyntaxError) : SameAnswer (.error e) (.error e)
  /-- The region matches for both, or for neither. -/
  | ok {isFound : Bool} {n n' : Matcher} (hfound : n'.found = n.found)
    (hnext : n'.nextStart = n.nextStart) : SameAnswer (.ok (isFound, n)) (.ok (isFound, n'))

/-- Two matchers that agree in segment, region and pattern give the same answer, whatever either has
kept. -/
theorem Coherent.sameAnswer (hm : m.Coherent) (hm' : m'.Coherent)
    (hsegment : m'.segment = m.segment) (hregion : m'.region = m.region)
    (hpattern : m'.pattern = m.pattern) : SameAnswer m.matchesRegion m'.matchesRegion := by
  have htext : m'.regionText = m.regionText := by
    unfold regionText
    rw [hsegment, hregion]
  obtain ⟨whole, heq⟩ := hm.matchesRegion_eq
  obtain ⟨whole', heq'⟩ := hm'.matchesRegion_eq
  rw [hpattern, htext] at heq'
  rw [heq, heq']
  cases m.pattern.verdict m.regionText with
  | error e => exact .error e
  | ok found =>
    refine .ok ?_ ?_
    · change found.map (·.shift m'.region.start) = found.map (·.shift m.region.start)
      rw [hregion]
    · change (found.map fun _ => m'.region.stop) = found.map fun _ => m.region.stop
      rw [hregion]

/-- Two matchers that have come by any calls to search the same region of one segment for the same
pattern answer the same about the whole region. -/
theorem matchesRegion_agrees {d : Document} {s : Segment} (hs : Segment.Reachable d s)
    (hm : Reachable (fun _ => True) s m) (hm' : Reachable (fun _ => True) s m')
    (hregion : m'.region = m.region) (hpattern : m'.pattern = m.pattern) :
    SameAnswer m.matchesRegion m'.matchesRegion := by
  obtain ⟨hcoherent, hsegment, -⟩ := hm.coherent hs.wellPlaced.1
  obtain ⟨hcoherent', hsegment', -⟩ := hm'.coherent hs.wellPlaced.1
  exact hcoherent.sameAnswer hcoherent' (hsegment'.trans hsegment.symm) hregion hpattern

/-- The pattern `a|b`, which never matches two letters. -/
def eitherLetter : Pattern := ⟨"a|b".toList, .set ⟨[⟨0x61, 0x62⟩]⟩⟩

/-- What has been kept for the pattern `a|ab` has no part in the answer for the pattern `a|b`. -/
theorem agrees_after_other_pattern :
    let m := overAb.run [.matchesRegion, .usePattern eitherLetter, .find, .useBounds .transparent]
    let m' := (Segment.ofText "ab".toList [] ⟨0, 0⟩).matcher eitherLetter
    overAb.matchesRegion.map Prod.fst = .ok true ∧ SameAnswer m.matchesRegion m'.matchesRegion ∧
      m.matchesRegion.map Prod.fst = .ok false := by
  intro m m'
  have hm : Reachable (fun _ => True) (.ofText "ab".toList [] ⟨0, 0⟩) m :=
    .step (.step (.step (.step (.new trivial) fun _ _ => trivial) fun _ _ => trivial)
      fun _ _ => trivial) fun _ _ => trivial
  refine ⟨by rfl, ?_, by rfl⟩
  exact matchesRegion_agrees (.root (d := ⟨"ab".toList, [], ⟨0, 0⟩⟩)) hm (.new trivial) rfl rfl

end Matcher

end SourceText
