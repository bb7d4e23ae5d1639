import SourceText.Proofs.Machine.Split

/-!
# Matchers on the machine

A match is found in what the pattern sees, and its offsets are moved on to the start of that before
they are given out; here they are when the match is found. A search is sent to the region's start,
or to where the last one has left off, and neither is outside of the region: this is what
`Matcher.Coherent` says of all matchers that calls lead to. So each call comes to what it answers
(`Machine.performMatcher_eq`), and any number of them does (`Machine.runMatcher_eq`). Only a group
of the match that is found has a position (`Machine.groupAt_comesTo`).
-/

namespace SourceText

open Text (byteLength isBoundary)

namespace Machine

/-! ## Searches -/

/-- A span with `base` more bytes in front. -/
def shiftSpan (base : Nat) (s : Span) : Machine Span := do
  return ⟨← add base s.start, ← add base s.stop⟩

/-- The spans of groups with `base` more bytes in front. -/
def shiftGroups (base : Nat) : List (Nat × Span) → Machine (List (Nat × Span))
  | [] => pure []
  | (index, s) :: rest => do
    let s ← shiftSpan base s
    return (index, s) :: (← shiftGroups base rest)

/-- A match with `base` more bytes in front. -/
def shiftMatch (base : Nat) (f : Pattern.Match) : Machine Pattern.Match := do
  return ⟨← shiftSpan base f.span, ← shiftGroups base f.groups⟩

/-- A matcher before its first search of a whole segment. -/
def newMatcher (s : Segment) (p : Pattern) : Machine Matcher := do
  return { Matcher.new s p with region := ⟨0, ← length s⟩ }

/-- Confines a matcher to a part of the segment. -/
def confine (m : Matcher) (start stop : Nat) : Machine (Except IndexError Matcher) := do
  match ← checkRange m.segment start stop with
  | .ok () => return .ok { m with region := ⟨start, stop⟩, found := none, nextStart := some start }
  | .error e => return .error e

/-- Starts over with the whole segment as region. -/
def reset (m : Matcher) : Machine Matcher := do
  return { m with region := ⟨0, ← length m.segment⟩, found := none, nextStart := some 0 }

/-- The text that the pattern sees, and the offset of its first byte. -/
def haystack (m : Matcher) : Machine (Text × Nat) := do
  let text ← text m.segment
  match m.bounds with
  | .anchoring => return (← slice text m.region.start m.region.stop, m.region.start)
  | .transparent => return (← slice text 0 m.region.stop, 0)

/-- Searches the region from an offset on. -/
def search (m : Matcher) (start : Nat) : Machine (Bool × Matcher) := do
  if start < m.region.start ∨ m.region.stop < start then
    fault .searchStart
    return (false, m.exhausted)
  else
    let (seen, base) ← haystack m
    match m.pattern.findFrom seen (← sub start base) with
    | some found =>
      let found ← shiftMatch base found
      let next ← nextSearchStart (← text m.segment) found.span m.region.stop
      return (true, { m with found := some found, nextStart := next })
    | none => return (false, m.exhausted)

/-- Searches for the next match. -/
def find (m : Matcher) : Machine (Bool × Matcher) :=
  match m.nextStart with
  | some start => search m start
  | none => pure (false, { m with found := none })

/-- Starts over and searches from an offset on. -/
def findFrom (m : Matcher) (start : Nat) : Machine (Except IndexError Bool × Matcher) := do
  let m ← reset m
  match ← checkRange m.segment start (← length m.segment) with
  | .ok () =>
    let (found, m) ← search m start
    return (.ok found, m)
  | .error e => return (.error e, m)

/-- Whether the leftmost match starts where the region does. -/
def lookingAt (m : Matcher) : Machine (Bool × Matcher) := do
  let (found, m') ← search m m.region.start
  if found ∧ m'.found.map (·.span.start) = some m.region.start then return (true, m')
  else return (false, { m with found := none })

/-- A matcher after it has been tried on the whole region with a result. -/
def settle (m : Matcher) (found : Option Pattern.Match) : Machine (Bool × Matcher) := do
  let shifted ← match found with
    | some f => do pure (some (← shiftMatch m.region.start f))
    | none => pure none
  return (found.isSome, { m with
    found := shifted
    nextStart := found.map fun _ => m.region.stop })

/-- Whether the pattern matches the whole region. -/
def matchesRegion (m : Matcher) : Machine (Except Pattern.SyntaxError (Bool × Matcher)) := do
  let text ← slice (← text m.segment) m.region.start m.region.stop
  match m.pattern.findFrom text 0 with
  | none => return .ok (← settle m none)
  | some found =>
    if found.span = ⟨0, byteLength text⟩ then return .ok (← settle m (some found))
    else if found.span.start = 0 then
      match m.wholePattern with
      | .ok (p, m) => return .ok (← settle m (p.findFrom text 0))
      | .error e => return .error e
    else return .ok (← settle m none)

/-- A group of the current match as a segment. -/
def groupAt (m : Matcher) (index : Nat) : Machine (Option Segment) :=
  match m.groupSpan? index with
  | some span => do return some (← derive m.segment span.start span.stop)
  | none => pure none

variable {s : Segment} {m : Matcher}

/-- A new matcher is made of any segment in memory. -/
theorem newMatcher_eq (hs : s.InMemory) (p : Pattern) : newMatcher s p = pure (s.matcher p) := by
  rw [newMatcher, length_eq hs, pure_bind]
  rfl

/-- A matcher is confined, or refuses the region, and meets no number out of bounds. -/
theorem confine_eq (hs : m.segment.InMemory) (start stop : Nat) :
    confine m start stop = pure (m.confine start stop) := by
  rw [confine, Matcher.confine, checkRange_eq hs, pure_bind]
  cases m.segment.checkRange start stop <;> rfl

/-- Starting over meets none either. -/
theorem reset_eq (hs : m.segment.InMemory) : reset m = pure m.reset := by
  rw [reset, length_eq hs, pure_bind]
  rfl

/-! ### What is found -/

/-- A span within a text can be counted from further ahead, as long as the end of the text can. -/
theorem shiftSpan_eq {text : Text} {low high base : Nat} {span : Span}
    (h : span.Inside text low high) (hbase : base + byteLength text ≤ maxCount) :
    shiftSpan base span = pure (span.shift base) := by
  have hstop := Text.le_byteLength_of_isBoundary h.stop
  have hle := h.le
  rw [shiftSpan, add_eq (by omega), pure_bind, add_eq (by omega), pure_bind]
  rfl

/-- So can the groups of a match. -/
theorem shiftGroups_eq {text : Text} {base : Nat} {groups : List (Nat × Span)}
    (h : ∀ g ∈ groups, ∃ low high, g.2.Inside text low high)
    (hbase : base + byteLength text ≤ maxCount) :
    shiftGroups base groups = pure (groups.map fun g => (g.1, g.2.shift base)) := by
  induction groups with
  | nil => rfl
  | cons g rest ih =>
    rw [List.forall_mem_cons] at h
    obtain ⟨⟨low, high, hg⟩, hrest⟩ := h
    rw [shiftGroups, shiftSpan_eq hg hbase, pure_bind, ih hrest, pure_bind]
    rfl

/-- The offsets of a match in a text can be moved on by what is in front of the text. -/
theorem shiftMatch_eq {text : Text} {low high base : Nat} {f : Pattern.Match}
    (hf : f.Within text low high) (hbase : base + byteLength text ≤ maxCount) :
    shiftMatch base f = pure (f.shift base) := by
  rw [shiftMatch, shiftSpan_eq hf.span hbase, pure_bind,
    shiftGroups_eq (fun g hg => ⟨_, _, hf.groups g hg⟩) hbase, pure_bind]
  rfl

/-- The text of the region is a slice of the segment. -/
theorem slice_region (hm : m.Coherent) :
    slice m.segment.text m.region.start m.region.stop = pure m.regionText := by
  obtain ⟨l, h, r, htext, hl, hh⟩ := hm.region.cut
  rw [slice_eq htext hl hh, Matcher.regionText, htext, ← hl, ← hh, Text.slice_append]

/-- What a matcher sees is found between the boundaries of its region. -/
theorem haystack_eq (hm : m.Coherent) (hs : m.segment.InMemory) : haystack m = pure m.haystack := by
  rw [haystack, text_eq hs, pure_bind, Matcher.haystack]
  cases m.bounds with
  | anchoring =>
    simp only [slice_region hm, pure_bind]
    rfl
  | transparent =>
    obtain ⟨l, h, r, htext, -, hh⟩ := hm.region.cut
    have hslice : slice m.segment.text 0 m.region.stop = pure (l ++ h) :=
      slice_eq (l := []) htext rfl hh
    have hmodel := Text.slice_append [] (l ++ h) r
    rw [List.nil_append, ← htext, Text.byteLength_nil, hh] at hmodel
    simp only
    rw [hslice, pure_bind, hmodel]

/-- A search that starts in the region comes to what it answers. -/
theorem search_eq (hm : m.Coherent) (hs : m.segment.InMemory) {start : Nat}
    (hlow : m.region.start ≤ start) (hhigh : start ≤ m.region.stop) :
    search m start = pure (m.search start) := by
  have hbytes := hs.byteLength_le
  have hcount := maxCount_eq
  obtain ⟨l, h, r, htext, hhay, hle, hstop, -⟩ := Matcher.haystack_cut hm.region
  have hcut := congrArg byteLength htext
  simp only [Text.byteLength_append] at hcut hstop
  unfold search Matcher.search
  rw [if_neg (by omega), if_neg (by omega), haystack_eq hm hs, pure_bind]
  simp only [hhay]
  rw [sub_eq (by omega) (by omega), pure_bind]
  cases hf : m.pattern.findFrom h (start - byteLength l) with
  | none => rfl
  | some f =>
    have hfind : m.pattern.findFrom m.haystack.1 (start - m.haystack.2) = some f := by
      rw [hhay]
      exact hf
    have hwithin := Matcher.within_of_findFrom hm hlow hfind
    rw [hhay] at hwithin
    have hroom : byteLength l + byteLength h ≤ maxCount := by omega
    have hbound : byteLength m.segment.text ≤ maxCount := by omega
    simp only [shiftMatch_eq (Pattern.findFrom_within hf) hroom, pure_bind, text_eq hs]
    rw [nextSearchStart_eq hbound hwithin.span.stop, pure_bind]

/-! ## Calls -/

/-- A search for the next match completes. -/
theorem find_eq (hm : m.Coherent) (hs : m.segment.InMemory) : find m = pure m.find := by
  unfold find Matcher.find
  cases hn : m.nextStart with
  | none => rfl
  | some start =>
    obtain ⟨hlow, hhigh, -⟩ := hm.next start hn
    exact search_eq hm hs hlow hhigh

/-- A search from an offset completes, refused or not. -/
theorem findFrom_eq (hm : m.Coherent) (hs : m.segment.InMemory) (start : Nat) :
    findFrom m start = pure (m.findFrom start) := by
  unfold findFrom Matcher.findFrom
  have hs' : m.reset.segment.InMemory := hs
  have hm' := Matcher.reset_coherent hm
  rw [reset_eq hs, pure_bind, length_eq hs', pure_bind, checkRange_eq hs', pure_bind]
  simp only
  cases hcheck : m.reset.segment.checkRange start m.reset.segment.length with
  | error e => rfl
  | ok u =>
    have hinside := Segment.checkRange_eq_ok_iff.mp hcheck
    simp only [search_eq hm' hs' (Nat.zero_le _) hinside.le, pure_bind]

/-- A look at the start of the region completes. -/
theorem lookingAt_eq (hm : m.Coherent) (hs : m.segment.InMemory) :
    lookingAt m = pure m.lookingAt := by
  unfold lookingAt Matcher.lookingAt
  rw [search_eq hm hs (Nat.le_refl _) hm.region.le, pure_bind]
  obtain ⟨found, m'⟩ := m.search m.region.start
  simp only
  split_ifs <;> rfl

/-- What is found in the text of the region can be moved on to where the region starts. -/
theorem settle_eq {text : Text} (hbase : m.region.start + byteLength text ≤ maxCount)
    (q : Pattern) : settle m (q.findFrom text 0) = pure (m.settle (q.findFrom text 0)) := by
  unfold settle Matcher.settle
  cases hf : q.findFrom text 0 with
  | none => rfl
  | some f =>
    simp only [shiftMatch_eq (Pattern.findFrom_within hf) hbase, pure_bind]
    rfl

/-- Asking whether all of the region matches completes, refused or not. -/
theorem matchesRegion_eq (hm : m.Coherent) (hs : m.segment.InMemory) :
    matchesRegion m = pure m.matchesRegion := by
  have hbytes := hs.byteLength_le
  have hcount := maxCount_eq
  have hhigh := hm.region.le_high
  rw [hs.placed.length_eq] at hhigh
  have hregion := Matcher.byteLength_regionText hm
  have hbase : m.region.start + byteLength m.regionText ≤ maxCount := by omega
  have hnone : settle m none = pure (m.settle none) := rfl
  unfold matchesRegion Matcher.matchesRegion
  simp only
  rw [text_eq hs, pure_bind, slice_region hm, pure_bind,
    show Text.slice m.segment.text m.region.start m.region.stop = m.regionText from rfl]
  -- What is found in the text of the region decides if it covers it or starts behind its start.
  cases hf : m.pattern.findFrom m.regionText 0 with
  | none =>
    simp only [hnone, pure_bind]
  | some f =>
    have hsettle := settle_eq hbase m.pattern
    rw [hf] at hsettle
    simp only
    split_ifs with hspan hstart
    · rw [hsettle]
      rfl
    · -- It stops short, and the pattern for whole texts is asked.
      cases hw : m.wholePattern with
      | error e => rfl
      | ok pair =>
        obtain ⟨q, m'⟩ := pair
        obtain ⟨-, rfl⟩ := Matcher.wholePattern_eq_ok hm hw
        simp only [settle_eq (m := { m with whole := some q }) hbase q, pure_bind]
        rfl
    · rw [hnone]
      rfl

/-- A group of the current match is found as a segment, unless the machine cannot count to it. -/
theorem groupAt_comesTo (hm : m.Coherent) (hs : m.segment.InMemory) (index : Nat) :
    (groupAt m index).ComesTo m.segment.CharsCounted (m.groupAt? index) := by
  unfold groupAt Matcher.groupAt?
  cases hspan : m.groupSpan? index with
  | none => exact .pure _
  | some span =>
    obtain ⟨f, hf, hgroup⟩ := Option.bind_eq_some_iff.mp hspan
    exact (derive_span hs ((hm.found f hf).group hgroup)).bind (.pure _)

/-- One call on a matcher, with what it answers. -/
def performMatcher (m : Matcher) : Matcher.Op → Machine (Matcher.Answer × Matcher)
  | .find => do
    let (isFound, m) ← find m
    return (.found isFound, m)
  | .findFrom start => do
    let (answer, m) ← findFrom m start
    return (.ofSearch answer, m)
  | .lookingAt => do
    let (isFound, m) ← lookingAt m
    return (.found isFound, m)
  | .matchesRegion => do
    match ← matchesRegion m with
    | .ok (isFound, m) => return (.found isFound, m)
    | .error e => return (.noPattern e, m)
  | .confine start stop => do
    match ← confine m start stop with
    | .ok m => return (.done, m)
    | .error e => return (.misfit e, m)
  | .reset => do return (.done, ← reset m)
  | .usePattern pattern => pure (.done, m.usePattern pattern)
  | .useBounds bounds => pure (.done, m.useBounds bounds)

/-- Some calls on a matcher, one after the other. -/
def runMatcher (m : Matcher) (ops : List Matcher.Op) : Machine Matcher :=
  ops.foldlM (fun m op => do return (← performMatcher m op).2) m

/-- Each call on a matcher completes with what it answers. -/
theorem performMatcher_eq (hm : m.Coherent) (hs : m.segment.InMemory) (op : Matcher.Op) :
    performMatcher m op = pure (m.perform op) := by
  cases op with
  | find =>
    rw [performMatcher, find_eq hm hs, pure_bind]
    rfl
  | findFrom start =>
    rw [performMatcher, findFrom_eq hm hs, pure_bind]
    rfl
  | lookingAt =>
    rw [performMatcher, lookingAt_eq hm hs, pure_bind]
    rfl
  | matchesRegion =>
    rw [performMatcher, matchesRegion_eq hm hs, pure_bind, Matcher.perform]
    cases m.matchesRegion <;> rfl
  | confine start stop =>
    rw [performMatcher, confine_eq hs, pure_bind, Matcher.perform]
    cases m.confine start stop <;> rfl
  | reset =>
    rw [performMatcher, reset_eq hs, pure_bind]
    rfl
  | usePattern pattern => rfl
  | useBounds bounds => rfl

/-- Any calls come to the matcher that they lead to. -/
theorem runMatcher_eq (hm : m.Coherent) (hs : m.segment.InMemory) (ops : List Matcher.Op) :
    runMatcher m ops = pure (m.run ops) := by
  induction ops generalizing m with
  | nil => rfl
  | cons op ops ih =>
    have hsegment : (m.perform op).2.segment.InMemory := by
      rw [(m.perform_keeps op).1]
      exact hs
    rw [runMatcher, List.foldlM_cons, performMatcher_eq hm hs, pure_bind, pure_bind]
    exact ih (Matcher.perform_coherent hm op) hsegment

end Machine

end SourceText
