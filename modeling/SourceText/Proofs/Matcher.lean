import Mathlib.Tactic.SplitIfs
import SourceText.Matcher
import SourceText.Proofs.Search
import SourceText.Proofs.Segment

/-!
# The state of a matcher

`Matcher.perform` is one call on a matcher, with what it answers, and `Matcher.run` is any number of
calls. `Matcher.Coherent` is what all of them keep: the region is a range of the segment between
boundaries, the next search starts in it, the current match and its groups lie in it, the pattern
that matches whole texts only belongs to the pattern that is searched for, and the current match was
found by one of these two.

A search sees the slice of the segment from some `base` at or before the region to the region's end
(`haystack_cut`), so what it finds, moved on by `base`, lies in the region (`search_coherent`). All
other operations start over, or keep what is there.
-/

namespace SourceText

open Text (byteLength isBoundary)

/-! ## Matches in a slice -/

/-- A span inside a slice, moved on by what comes before the slice. -/
theorem Span.Inside.shift {l h r : Text} {low high : Nat} {s : Span} (hs : s.Inside h low high) :
    (s.shift (byteLength l)).Inside (l ++ h ++ r) (byteLength l + low) (byteLength l + high) where
  start := Text.isBoundary_slice hs.start
  stop := Text.isBoundary_slice hs.stop
  low_le := Nat.add_le_add_left hs.low_le _
  le := Nat.add_le_add_left hs.le _
  le_high := Nat.add_le_add_left hs.le_high _

namespace Pattern.Match.Within

variable {text : Text} {low high : Nat} {m : Match}

/-- A match in a slice, moved on by what comes before the slice. -/
theorem shift {l h r : Text} (hm : m.Within h low high) :
    (m.shift (byteLength l)).Within (l ++ h ++ r) (byteLength l + low) (byteLength l + high) := by
  refine ⟨hm.span.shift, ?_⟩
  intro g hg
  obtain ⟨g', hg', rfl⟩ := List.mem_map.mp hg
  exact (hm.groups g' hg').shift

/-- A match within bounds is within wider ones. -/
theorem mono {low' high' : Nat} (hm : m.Within text low high) (hl : low' ≤ low)
    (hh : high ≤ high') : m.Within text low' high' :=
  ⟨hm.span.mono hl hh, hm.groups⟩

/-- A group that took part lies in the match. -/
theorem group {index : Nat} {s : Span} (hm : m.Within text low high)
    (h : m.group? index = some s) : s.Inside text m.span.start m.span.stop := by
  unfold Match.group? at h
  split_ifs at h
  · obtain rfl : m.span = s := Option.some.inj h
    exact ⟨hm.span.start, hm.span.stop, Nat.le_refl _, hm.span.le, Nat.le_refl _⟩
  · obtain ⟨l₁, l₂, hgroups, -⟩ := List.lookup_eq_some_iff.mp h
    exact hm.groups (index, s) (by rw [hgroups]; simp)

end Pattern.Match.Within

namespace Matcher

/-! ## Calls -/

/-- One call on a matcher. -/
inductive Op where
  /-- Searches for the next match. -/
  | find
  /-- Starts over and searches from an offset on. -/
  | findFrom (start : Nat)
  /-- Asks whether a match starts where the region does. -/
  | lookingAt
  /-- Asks whether the whole region matches. -/
  | matchesRegion
  /-- Confines the search to a part of the segment. -/
  | confine (start stop : Nat)
  /-- Starts over with the whole segment. -/
  | reset
  /-- Goes on with another pattern. -/
  | usePattern (pattern : Pattern)
  /-- Chooses what the pattern sees at the edges of the region. -/
  | useBounds (bounds : Bounds)
  deriving DecidableEq, Repr

/-- What a call answers. -/
inductive Answer where
  /-- It has been done. -/
  | done
  /-- Whether there is a match. -/
  | found (isFound : Bool)
  /-- An offset does not fit. -/
  | misfit (e : IndexError)
  /-- A text is no pattern. -/
  | noPattern (e : Pattern.SyntaxError)
  deriving DecidableEq, Repr

/-- The answer of a search from an offset that may not fit. -/
def Answer.ofSearch : Except IndexError Bool → Answer
  | .ok isFound => found isFound
  | .error e => misfit e

/-- A call, what it answers, and the matcher after it. A call that is refused leaves the matcher as
it is, but for `findFrom`, which has started over by then. -/
def perform (m : Matcher) : Op → Answer × Matcher
  | .find => (.found m.find.1, m.find.2)
  | .findFrom start => (.ofSearch (m.findFrom start).1, (m.findFrom start).2)
  | .lookingAt => (.found m.lookingAt.1, m.lookingAt.2)
  | .matchesRegion =>
    match m.matchesRegion with
    | .ok (isFound, m) => (.found isFound, m)
    | .error e => (.noPattern e, m)
  | .confine start stop =>
    match m.confine start stop with
    | .ok m => (.done, m)
    | .error e => (.misfit e, m)
  | .reset => (.done, m.reset)
  | .usePattern pattern => (.done, m.usePattern pattern)
  | .useBounds bounds => (.done, m.useBounds bounds)

/-- The matcher after some calls. -/
def run (m : Matcher) (ops : List Op) : Matcher := ops.foldl (fun m op => (m.perform op).2) m

/-! ## The invariant -/

/-- The match `f` is one that `q` found in the text that the matcher sees. The pattern `q` is the
one that is searched for, or that one made to match whole texts only. -/
def FoundBy (m : Matcher) (f : Pattern.Match) (q : Pattern) : Prop :=
  (q = m.pattern ∨ Pattern.compile {} m.pattern.wholeSource = .ok q) ∧
    ∃ base offset g, (base = 0 ∨ base = m.region.start) ∧
      q.findFrom (Text.slice m.segment.text base m.region.stop) offset = some g ∧ f = g.shift base

/-- What all calls keep. -/
structure Coherent (m : Matcher) : Prop where
  /-- The segment is a part of its document. -/
  segment : m.segment.WellPlaced
  /-- The region is a range of the segment. -/
  region : m.region.Inside m.segment.text 0 m.segment.length
  /-- The next search starts in the region. -/
  next : ∀ n, m.nextStart = some n →
    m.region.start ≤ n ∧ n ≤ m.region.stop ∧ isBoundary m.segment.text n
  /-- The current match lies in the region. -/
  found : ∀ f, m.found = some f → f.Within m.segment.text m.region.start m.region.stop
  /-- The pattern that matches whole texts only is that of the pattern searched for. -/
  whole : ∀ q, m.whole = some q → Pattern.compile {} m.pattern.wholeSource = .ok q
  /-- The current match was found by one of the two. -/
  origin : ∀ f, m.found = some f → ∃ q, m.FoundBy f q

variable {m : Matcher}

/-- A new matcher has the whole segment as region and no match. -/
theorem new_coherent {s : Segment} (hs : s.WellPlaced) (p : Pattern) : (new s p).Coherent where
  segment := hs
  region :=
    ⟨by simp [new], by simp [new, hs.length_eq], Nat.le_refl _, Nat.zero_le _, Nat.le_refl _⟩
  next := by
    intro n hn
    obtain rfl : 0 = n := by simpa [new] using hn
    exact ⟨Nat.le_refl _, Nat.zero_le _, Text.isBoundary_zero _⟩
  found := by simp [new]
  whole := by simp [new]
  origin := by simp [new]

/-! ## Searches -/

/-- What a search sees is a slice of the segment that ends where the region does and starts at its
start or before. -/
theorem haystack_cut (hm : m.region.Inside m.segment.text 0 m.segment.length) :
    ∃ l h r, m.segment.text = l ++ h ++ r ∧ m.haystack = (h, byteLength l) ∧
      byteLength l ≤ m.region.start ∧ byteLength (l ++ h) = m.region.stop ∧
      (byteLength l = 0 ∨ byteLength l = m.region.start) := by
  obtain ⟨l, h, r, htext, hl, hh⟩ := hm.cut
  unfold haystack
  cases m.bounds with
  | anchoring =>
    -- The region alone.
    refine ⟨l, h, r, htext, ?_, Nat.le_of_eq hl, hh, .inr hl⟩
    simp only
    rw [htext, ← hl, ← hh, Text.slice_append]
  | transparent =>
    -- The region and all that comes before it.
    refine ⟨[], l ++ h, r, by simpa using htext, ?_, Nat.zero_le _, by simpa using hh, .inl rfl⟩
    have hslice := Text.slice_append [] (l ++ h) r
    simp only [List.nil_append, Text.byteLength_nil] at hslice
    simp only
    rw [htext, ← hh, hslice]
    rfl

/-- The matcher once a search has found `f`. -/
def accept (m : Matcher) (f : Pattern.Match) : Matcher :=
  { m with
    found := some f
    nextStart := Pattern.nextSearchStart m.segment.text f.span m.region.stop }

/-- A search finds nothing, or what the pattern finds in the text that the matcher sees. -/
theorem search_cases (m : Matcher) (start : Nat) :
    m.search start = (false, m.exhausted) ∨
      ∃ f, m.pattern.findFrom m.haystack.1 (start - m.haystack.2) = some f ∧
        m.region.start ≤ start ∧ start ≤ m.region.stop ∧
        m.search start = (true, m.accept (f.shift m.haystack.2)) := by
  unfold search
  split_ifs with hout
  · exact .inl rfl
  · simp only
    cases hf : m.pattern.findFrom m.haystack.1 (start - m.haystack.2) with
    | none => exact .inl rfl
    | some f => exact .inr ⟨f, rfl, by omega, by omega, rfl⟩

/-- A matcher whose matches have run out is coherent. -/
theorem exhausted_coherent (hm : m.Coherent) : m.exhausted.Coherent where
  segment := hm.segment
  region := hm.region
  next := by simp [exhausted]
  found := by simp [exhausted]
  whole := hm.whole
  origin := by simp [exhausted]

/-- What a search finds lies in the region. -/
theorem within_of_findFrom (hm : m.Coherent) {q : Pattern} {start : Nat} {f : Pattern.Match}
    (hstart : m.region.start ≤ start)
    (hf : q.findFrom m.haystack.1 (start - m.haystack.2) = some f) :
    (f.shift m.haystack.2).Within m.segment.text start m.region.stop := by
  obtain ⟨l, h, r, htext, hhay, hle, hstop, -⟩ := haystack_cut hm.region
  rw [hhay] at hf ⊢
  have hwithin := (Pattern.findFrom_within hf).shift (l := l) (r := r)
  rw [← htext, ← Text.byteLength_append, hstop] at hwithin
  exact hwithin.mono (by omega) (Nat.le_refl _)

/-- What is found in the text that the matcher sees was found by the pattern searched for. -/
theorem foundBy_of_findFrom (hm : m.Coherent) {offset : Nat} {f : Pattern.Match}
    (hf : m.pattern.findFrom m.haystack.1 offset = some f) :
    m.FoundBy (f.shift m.haystack.2) m.pattern := by
  obtain ⟨l, h, r, htext, hhay, -, hstop, hbase⟩ := haystack_cut hm.region
  rw [hhay] at hf ⊢
  refine ⟨.inl rfl, byteLength l, offset, f, hbase, ?_, rfl⟩
  rw [htext, ← hstop, Text.slice_append]
  exact hf

/-- A match within the region leaves the matcher coherent that accepts it. -/
theorem accept_coherent (hm : m.Coherent) {f : Pattern.Match} {q : Pattern}
    (hf : f.Within m.segment.text m.region.start m.region.stop) (hq : m.FoundBy f q) :
    (m.accept f).Coherent where
  segment := hm.segment
  region := hm.region
  next := by
    -- It starts where the match ends or behind that, and not past the region.
    intro n hn
    obtain ⟨hle, hlimit, hb⟩ := Pattern.nextSearchStart_spec hf.span.stop hf.span.le_high hn
    exact ⟨Nat.le_trans hf.span.low_le (Nat.le_trans hf.span.le hle), hlimit, hb⟩
  found := by
    intro g hg
    obtain rfl : f = g := Option.some.inj hg
    exact hf
  whole := hm.whole
  origin := by
    intro g hg
    obtain rfl : f = g := Option.some.inj hg
    exact ⟨q, hq⟩

/-- A search leaves it coherent. -/
theorem search_coherent (hm : m.Coherent) (start : Nat) : (m.search start).2.Coherent := by
  rcases m.search_cases start with h | ⟨f, hf, hstart, -, h⟩
  · rw [h]
    exact exhausted_coherent hm
  · rw [h]
    exact accept_coherent hm ((within_of_findFrom hm hstart hf).mono hstart (Nat.le_refl _))
      (foundBy_of_findFrom hm hf)

/-! ## The calls keep it -/

/-- Dropping the current match changes nothing else. -/
theorem forget_coherent (hm : m.Coherent) : ({ m with found := none } : Matcher).Coherent where
  segment := hm.segment
  region := hm.region
  next := hm.next
  found := by simp
  whole := hm.whole
  origin := by simp

/-- Starting over in a range of the segment. -/
theorem restart_coherent (hm : m.Coherent) {region : Span}
    (hr : region.Inside m.segment.text 0 m.segment.length) :
    ({ m with region := region, found := none, nextStart := some region.start } : Matcher).Coherent
    where
  segment := hm.segment
  region := hr
  next := by
    intro n hn
    obtain rfl : region.start = n := Option.some.inj hn
    exact ⟨Nat.le_refl _, hr.le, hr.start⟩
  found := by simp
  whole := hm.whole
  origin := by simp

/-- Starting over makes a matcher coherent. -/
theorem reset_coherent (hm : m.Coherent) : m.reset.Coherent :=
  restart_coherent hm
    ⟨Text.isBoundary_zero _, by simp [hm.segment.length_eq], Nat.le_refl _, Nat.zero_le _,
      Nat.le_refl _⟩

/-- Confining a matcher to a region that is not refused leaves it coherent. -/
theorem confine_coherent (hm : m.Coherent) {start stop : Nat} {m' : Matcher}
    (h : m.confine start stop = .ok m') : m'.Coherent := by
  unfold confine at h
  cases hc : m.segment.checkRange start stop with
  | error e => simp [hc, Except.map] at h
  | ok u =>
    rw [hc] at h
    rw [← Except.ok.inj h]
    have hinside : (⟨start, stop⟩ : Span).Inside m.segment.text 0 m.segment.length :=
      Segment.checkRange_eq_ok_iff.mp hc
    exact restart_coherent hm hinside

/-- Another pattern leaves a matcher coherent, as the kept one goes with the old. -/
theorem usePattern_coherent (hm : m.Coherent) (p : Pattern) : (m.usePattern p).Coherent where
  segment := hm.segment
  region := hm.region
  next := hm.next
  found := by simp [usePattern]
  whole := by simp [usePattern]
  origin := by simp [usePattern]

/-- The bounds can change while there is a match: its offsets count from the segment's start. -/
theorem useBounds_coherent (hm : m.Coherent) (b : Bounds) : (m.useBounds b).Coherent where
  segment := hm.segment
  region := hm.region
  next := hm.next
  found := hm.found
  whole := hm.whole
  origin := hm.origin

/-- A search for the next match leaves a matcher coherent. -/
theorem find_coherent (hm : m.Coherent) : m.find.2.Coherent := by
  unfold find
  cases hn : m.nextStart with
  | none =>
    -- The matches have run out, and stay so.
    simp only
    rw [← hn]
    exact forget_coherent hm
  | some start => exact search_coherent hm start

/-- A search from an offset leaves a matcher coherent, also if it is refused. -/
theorem findFrom_coherent (hm : m.Coherent) (start : Nat) : (m.findFrom start).2.Coherent := by
  unfold findFrom
  simp only
  -- An offset that does not fit is refused after the matcher has started over.
  cases m.reset.segment.checkRange start m.reset.segment.length with
  | error e => exact reset_coherent hm
  | ok u => exact search_coherent (reset_coherent hm) start

/-- A match that starts where the region does is kept, and any other is dropped together with the
current one. -/
theorem lookingAt_cases (m : Matcher) :
    m.lookingAt = (false, { m with found := none }) ∨
      ∃ f, m.pattern.findFrom m.haystack.1 (m.region.start - m.haystack.2) = some f ∧
        (f.shift m.haystack.2).span.start = m.region.start ∧
        m.lookingAt = (true, m.accept (f.shift m.haystack.2)) := by
  rcases m.search_cases m.region.start with h | ⟨f, hf, -, -, h⟩
  · left
    simp [lookingAt, h]
  · -- Some match has been found, but it may start later.
    by_cases hstart : (f.shift m.haystack.2).span.start = m.region.start
    · exact .inr ⟨f, hf, hstart, by simp [lookingAt, h, accept, hstart]⟩
    · left
      simp [lookingAt, h, accept, hstart]

/-- A match that is found where the region starts is kept. -/
theorem lookingAt_eq_true {f : Pattern.Match} (hle : m.region.start ≤ m.region.stop)
    (hf : m.pattern.findFrom m.haystack.1 (m.region.start - m.haystack.2) = some f)
    (hstart : (f.shift m.haystack.2).span.start = m.region.start) :
    m.lookingAt = (true, m.accept (f.shift m.haystack.2)) := by
  have hsearch : m.search m.region.start = (true, m.accept (f.shift m.haystack.2)) := by
    unfold search
    rw [if_neg (by omega)]
    simp only [hf]
    rfl
  simp [lookingAt, hsearch, accept, hstart]

/-- A look at the start of the region leaves a matcher coherent. -/
theorem lookingAt_coherent (hm : m.Coherent) : m.lookingAt.2.Coherent := by
  rcases m.lookingAt_cases with h | ⟨f, hf, -, h⟩
  · rw [h]
    exact forget_coherent hm
  · rw [h]
    exact accept_coherent hm (within_of_findFrom hm (Nat.le_refl _) hf) (foundBy_of_findFrom hm hf)

/-- The pattern that matches whole texts only is read from the pattern searched for, whether or not
it has been needed before. -/
theorem Coherent.wholePattern_eq (hm : m.Coherent) :
    m.wholePattern =
      (Pattern.compile {} m.pattern.wholeSource).map fun q => (q, { m with whole := some q }) := by
  unfold wholePattern
  cases hw : m.whole with
  | none => rfl
  | some q =>
    rw [hm.whole q hw]
    simp only [Except.map]
    rw [← hw]

/-- Whatever changes neither the pattern nor what is kept for it, and does not look at that, can be
done before the pattern for whole texts is read or after it. -/
theorem wholePattern_map (g : Matcher → Matcher) (hwhole : (g m).whole = m.whole)
    (hpattern : (g m).pattern = m.pattern)
    (hkeep : ∀ q, ({ g m with whole := some q } : Matcher) = g { m with whole := some q }) :
    (g m).wholePattern = m.wholePattern.map fun (q, m') => (q, g m') := by
  have hsource : (g m).pattern.wholeSource = m.pattern.wholeSource := congrArg _ hpattern
  unfold wholePattern
  rw [hwhole, hsource]
  cases m.whole with
  | some q => rfl
  | none =>
    cases Pattern.compile {} m.pattern.wholeSource with
    | error e => rfl
    | ok q => exact congrArg (fun m' => Except.ok (q, m')) (hkeep q)

/-- Keeping it changes nothing else. -/
theorem wholePattern_eq_ok (hm : m.Coherent) {q : Pattern} {m' : Matcher}
    (h : m.wholePattern = .ok (q, m')) :
    Pattern.compile {} m.pattern.wholeSource = .ok q ∧ m' = { m with whole := some q } := by
  rw [hm.wholePattern_eq] at h
  cases hc : Pattern.compile {} m.pattern.wholeSource with
  | error e =>
    rw [hc] at h
    cases h
  | ok p =>
    rw [hc] at h
    obtain ⟨rfl, rfl⟩ := Prod.mk.inj (Except.ok.inj h)
    exact ⟨rfl, rfl⟩

/-- The pattern that matches whole texts only can be kept. -/
theorem keepWhole_coherent (hm : m.Coherent) {q : Pattern}
    (hq : Pattern.compile {} m.pattern.wholeSource = .ok q) :
    ({ m with whole := some q } : Matcher).Coherent where
  segment := hm.segment
  region := hm.region
  next := hm.next
  found := hm.found
  whole := by
    intro q' hq'
    obtain rfl : q = q' := Option.some.inj hq'
    exact hq
  origin := hm.origin

/-- The text of the region. -/
def regionText (m : Matcher) : Text :=
  Text.slice m.segment.text m.region.start m.region.stop

/-- The text of a region is as long as the region. -/
theorem byteLength_regionText (hm : m.Coherent) :
    m.region.start + byteLength m.regionText = m.region.stop := by
  obtain ⟨l, h, r, htext, hl, hh⟩ := hm.region.cut
  rw [regionText, htext, ← hl, ← hh, Text.slice_append, Text.byteLength_append]

/-- The bounds show the text of the region alone if they anchor, or if nothing is before it. -/
theorem haystack_eq (h : m.bounds = .anchoring ∨ m.region.start = 0) :
    m.haystack = (m.regionText, m.region.start) := by
  unfold haystack regionText
  rcases h with h | h
  · rw [h]
  · cases m.bounds with
    | anchoring => rfl
    | transparent => rw [h]

/-- Either the preferred match in the text of the region decides whether the region matches, or it
starts with the region and the pattern that matches whole texts only decides. -/
theorem matchesRegion_cases (m : Matcher) :
    (∃ found, (∀ f, found = some f → m.pattern.findFrom m.regionText 0 = some f ∧
          f.span = ⟨0, byteLength m.regionText⟩) ∧
        m.matchesRegion = .ok (m.settle found)) ∨
      ∃ f, m.pattern.findFrom m.regionText 0 = some f ∧ f.span.start = 0 ∧
        m.matchesRegion =
          m.wholePattern.map fun (q, m') => m'.settle (q.findFrom m.regionText 0) := by
  unfold matchesRegion
  simp only
  rw [show Text.slice m.segment.text m.region.start m.region.stop = m.regionText from rfl]
  cases hf : m.pattern.findFrom m.regionText 0 with
  | none => exact .inl ⟨none, by simp, rfl⟩
  | some f =>
    simp only
    split_ifs with hspan hstart
    · refine .inl ⟨some f, ?_, rfl⟩
      intro g hg
      obtain rfl : f = g := Option.some.inj hg
      exact ⟨rfl, hspan⟩
    · exact .inr ⟨f, rfl, hstart, rfl⟩
    · exact .inl ⟨none, by simp, rfl⟩

/-- A preferred match that is the whole of the region is all that it takes. -/
theorem matchesRegion_eq_ok {f : Pattern.Match} (hf : m.pattern.findFrom m.regionText 0 = some f)
    (hspan : f.span = ⟨0, byteLength m.regionText⟩) :
    m.matchesRegion = .ok (m.settle (some f)) := by
  unfold matchesRegion
  simp only
  rw [show Text.slice m.segment.text m.region.start m.region.stop = m.regionText from rfl, hf]
  simp only
  rw [if_pos hspan]

/-- What is found in the text of the region alone is settled as the current match. -/
theorem settle_coherent (hm : m.Coherent) {q : Pattern}
    (hq : q = m.pattern ∨ Pattern.compile {} m.pattern.wholeSource = .ok q)
    (found : Option Pattern.Match)
    (hf : ∀ f, found = some f → q.findFrom m.regionText 0 = some f) :
    (m.settle found).2.Coherent := by
  cases found with
  | none => exact exhausted_coherent hm
  | some f =>
    -- The region is the middle of the segment, and the match was found in it alone.
    have hfind := hf f rfl
    obtain ⟨l, h, r, htext, hl, hh⟩ := hm.region.cut
    have hwithin : (f.shift m.region.start).Within m.segment.text m.region.start m.region.stop := by
      rw [regionText, htext, ← hl, ← hh, Text.slice_append] at hfind
      have hw := (Pattern.findFrom_within hfind).shift (l := l) (r := r)
      rw [← htext, ← Text.byteLength_append, hh, hl] at hw
      exact hw
    refine ⟨hm.segment, hm.region, ?_, ?_, hm.whole, ?_⟩
    · intro n hn
      obtain rfl : m.region.stop = n := Option.some.inj hn
      exact ⟨hm.region.le, Nat.le_refl _, hm.region.stop⟩
    · intro g hg
      obtain rfl : f.shift m.region.start = g := Option.some.inj hg
      exact hwithin
    · intro g hg
      obtain rfl : f.shift m.region.start = g := Option.some.inj hg
      exact ⟨q, hq, m.region.start, 0, f, .inr rfl, hfind, rfl⟩

/-- Asking whether all of the region matches leaves a matcher coherent. -/
theorem matchesRegion_coherent (hm : m.Coherent) {r : Bool × Matcher}
    (h : m.matchesRegion = .ok r) : r.2.Coherent := by
  rcases m.matchesRegion_cases with ⟨found, hfound, heq⟩ | ⟨f, -, -, heq⟩
  · rw [h] at heq
    rw [Except.ok.inj heq]
    exact settle_coherent hm (.inl rfl) found fun f hf => (hfound f hf).1
  · rw [h] at heq
    cases hw : m.wholePattern with
    | error e => simp [hw, Except.map] at heq
    | ok pair =>
      obtain ⟨q, m'⟩ := pair
      obtain ⟨hq, rfl⟩ := wholePattern_eq_ok hm hw
      -- The pattern that was read is kept, and then the match is settled.
      rw [hw] at heq
      rw [Except.ok.inj heq]
      exact settle_coherent (keepWhole_coherent hm hq) (.inr hq) _ fun g hg => hg

/-- One call keeps the invariant, whatever it answers. -/
theorem perform_coherent (hm : m.Coherent) (op : Op) : (m.perform op).2.Coherent := by
  cases op with
  | find => exact find_coherent hm
  | findFrom start => exact findFrom_coherent hm start
  | lookingAt => exact lookingAt_coherent hm
  | matchesRegion =>
    simp only [perform]
    cases hr : m.matchesRegion with
    | error e => exact hm -- No pattern could be made of the text, and nothing has changed.
    | ok r => exact matchesRegion_coherent hm hr
  | confine start stop =>
    simp only [perform]
    cases hc : m.confine start stop with
    | error e => exact hm
    | ok m' => exact confine_coherent hm hc
  | reset => exact reset_coherent hm
  | usePattern p => exact usePattern_coherent hm p
  | useBounds b => exact useBounds_coherent hm b

/-- Any calls keep the invariant. -/
theorem run_coherent (hm : m.Coherent) (ops : List Op) : (m.run ops).Coherent := by
  induction ops generalizing m with
  | nil => exact hm
  | cons op ops ih => exact ih (perform_coherent hm op)

/-! ## What calls leave alone -/

/-- The pattern that a call goes on with, if it is another. -/
def Op.pattern? : Op → Option Pattern
  | .usePattern pattern => some pattern
  | .find | .findFrom _ | .lookingAt | .matchesRegion | .confine _ _ | .reset | .useBounds _ => none

/-- No call changes what is searched, and only `usePattern` changes what is searched for. -/
theorem perform_keeps (m : Matcher) (op : Op) :
    (m.perform op).2.segment = m.segment ∧
      (m.perform op).2.pattern = op.pattern?.getD m.pattern := by
  -- All that searches for a match is a search from some offset.
  have hsearch : ∀ (m : Matcher) start,
      (m.search start).2.segment = m.segment ∧ (m.search start).2.pattern = m.pattern := by
    intro m start
    rcases m.search_cases start with h | ⟨f, -, -, -, h⟩
    · rw [h]
      exact ⟨rfl, rfl⟩
    · rw [h]
      exact ⟨rfl, rfl⟩
  cases op with
  | find =>
    simp only [perform, find]
    cases m.nextStart with
    | none => exact ⟨rfl, rfl⟩
    | some start => exact hsearch m start
  | findFrom start =>
    simp only [perform, findFrom]
    cases m.reset.segment.checkRange start m.reset.segment.length with
    | error e => exact ⟨rfl, rfl⟩
    | ok u => exact hsearch m.reset start
  | lookingAt =>
    simp only [perform]
    rcases m.lookingAt_cases with h | ⟨f, -, -, h⟩
    · rw [h]
      exact ⟨rfl, rfl⟩
    · rw [h]
      exact ⟨rfl, rfl⟩
  | matchesRegion =>
    simp only [perform]
    rcases m.matchesRegion_cases with ⟨found, -, h⟩ | ⟨f, -, -, h⟩
    · rw [h]
      exact ⟨rfl, rfl⟩
    · rw [h, wholePattern]
      cases m.whole with
      | some q => exact ⟨rfl, rfl⟩
      | none =>
        cases Pattern.compile {} m.pattern.wholeSource with
        | error e => exact ⟨rfl, rfl⟩
        | ok q => exact ⟨rfl, rfl⟩
  | confine start stop =>
    simp only [perform, confine]
    cases m.segment.checkRange start stop with
    | error e => exact ⟨rfl, rfl⟩
    | ok u => exact ⟨rfl, rfl⟩
  | reset => exact ⟨rfl, rfl⟩
  | usePattern p => exact ⟨rfl, rfl⟩
  | useBounds b => exact ⟨rfl, rfl⟩

/-- No calls change what is searched. -/
theorem segment_run (m : Matcher) (ops : List Op) : (m.run ops).segment = m.segment := by
  induction ops generalizing m with
  | nil => rfl
  | cons op ops ih => exact (ih (m.perform op).2).trans (m.perform_keeps op).1

/-! ## All matchers over a segment -/

/-- The matchers that come of any calls on a new one over `s`, when all patterns that are searched
for are among those of `P`. -/
inductive Reachable (P : Pattern → Prop) (s : Segment) : Matcher → Prop where
  /-- A new matcher. -/
  | new {p : Pattern} (hp : P p) : Reachable P s (s.matcher p)
  /-- One call more. -/
  | step {m : Matcher} {op : Op} (hm : Reachable P s m) (hop : ∀ p, op.pattern? = some p → P p) :
      Reachable P s (m.perform op).2

/-- They are coherent, search the segment, and search for one of the patterns. -/
theorem Reachable.coherent {P : Pattern → Prop} {s : Segment} (h : Reachable P s m)
    (hs : s.WellPlaced) : m.Coherent ∧ m.segment = s ∧ P m.pattern := by
  induction h with
  | new hp => exact ⟨new_coherent hs _, rfl, hp⟩
  | step hm hop ih =>
    rename_i m op
    obtain ⟨hcoherent, hsegment, hpattern⟩ := ih
    obtain ⟨hs', hp'⟩ := m.perform_keeps op
    refine ⟨perform_coherent hcoherent op, hs'.trans hsegment, ?_⟩
    -- The pattern is the one before the call, or the one that the call brings.
    rw [hp']
    cases hop' : op.pattern? with
    | none => exact hpattern
    | some p => exact hop p hop'

/-- Every region of the segment and either kind of bounds can be chosen. -/
theorem reachable_confined {P : Pattern → Prop} {p : Pattern} (hp : P p) {s : Segment}
    {region : Span} (hr : region.Inside s.text 0 s.length) (bounds : Bounds) :
    Reachable P s ⟨s, p, none, region, bounds, none, some region.start⟩ := by
  have h : Reachable P s (((s.matcher p).perform (.useBounds bounds)).2.perform
      (.confine region.start region.stop)).2 :=
    .step (.step (.new hp) (by simp [Op.pattern?])) (by simp [Op.pattern?])
  have hcheck := Segment.checkRange_eq_ok_iff.mpr hr
  simp only [perform, confine, useBounds, Segment.matcher, new, hcheck, Except.map] at h
  exact h

end Matcher

end SourceText
