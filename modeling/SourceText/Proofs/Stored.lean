import SourceText.Proofs.Confined

/-!
# The current match as it is kept

A matcher keeps the offsets of its current match as the search has found them, from the start of the
text that the pattern saw, and keeps next to them where that text starts. `Matcher.Stored` is the
matcher in this form, with its calls, and `Stored.matcher` is what it stands for: the same with all
offsets counted from the start of the segment.

A call that looks at the start of the region and fails has often found a match further on, and has
then put another start in place of the old one; it drops the match and takes back where the next
search starts, and nothing else. Whatever start has been left there is not looked at before the next
match is found, so each call answers the same as on the matcher that is stood for, and goes on
standing for it (`perform_matcher`, `run_matcher`).
-/

namespace SourceText.Matcher

/-- A matcher as it is kept. -/
structure Stored where
  /-- What is searched. -/
  segment : Segment
  /-- What is searched for. -/
  pattern : Pattern
  /-- The pattern that matches whole texts only, once it has been needed. -/
  whole : Option Pattern
  /-- The part of the segment that the search is confined to. -/
  region : Span
  /-- What the pattern sees at the edges of the region. -/
  bounds : Bounds
  /-- The current match, in offsets into the text that the pattern saw. -/
  found : Option Pattern.Match
  /-- Where that text starts. -/
  base : Nat
  /-- Where the next search starts, or nothing when the matches have run out. -/
  nextStart : Option Nat
  deriving DecidableEq, Repr

namespace Stored

/-- The matcher that is stood for. -/
def matcher (c : Stored) : Matcher where
  segment := c.segment
  pattern := c.pattern
  whole := c.whole
  region := c.region
  bounds := c.bounds
  found := c.found.map (·.shift c.base)
  nextStart := c.nextStart

/-! ## Calls -/

/-- A matcher before its first search. -/
def new (segment : Segment) (pattern : Pattern) : Stored where
  segment := segment
  pattern := pattern
  whole := none
  region := ⟨0, segment.length⟩
  bounds := .anchoring
  found := none
  base := 0
  nextStart := some 0

/-- Goes on with another pattern. -/
def usePattern (c : Stored) (pattern : Pattern) : Stored :=
  { c with pattern := pattern, whole := none, found := none }

/-- Chooses what the pattern sees at the edges of the region. -/
def useBounds (c : Stored) (bounds : Bounds) : Stored := { c with bounds := bounds }

/-- Confines the matcher to a part of the segment. -/
def confine (c : Stored) (start stop : Nat) : Except IndexError Stored :=
  (c.segment.checkRange start stop).map fun _ =>
    { c with region := ⟨start, stop⟩, found := none, nextStart := some start }

/-- Starts over with the whole segment as region. -/
def reset (c : Stored) : Stored :=
  { c with region := ⟨0, c.segment.length⟩, found := none, nextStart := some 0 }

/-- No match, and no place to search from. The base stays. -/
def exhausted (c : Stored) : Stored := { c with found := none, nextStart := none }

/-- Searches the region from an offset on. -/
def search (c : Stored) (start : Nat) : Bool × Stored :=
  if start < c.region.start ∨ c.region.stop < start then (false, c.exhausted)
  else
    let (text, base) := c.matcher.haystack
    match c.pattern.findFrom text (start - base) with
    | some found =>
      (true, { c with
        found := some found
        base := base
        nextStart := Pattern.nextSearchStart c.segment.text (found.shift base).span c.region.stop })
    | none => (false, c.exhausted)

/-- Searches for the next match. -/
def find (c : Stored) : Bool × Stored :=
  match c.nextStart with
  | some start => c.search start
  | none => (false, { c with found := none })

/-- Starts over and searches from an offset on. -/
def findFrom (c : Stored) (start : Nat) : Except IndexError Bool × Stored :=
  let c := c.reset
  match c.segment.checkRange start c.segment.length with
  | .ok () => let (found, c) := c.search start; (.ok found, c)
  | .error e => (.error e, c)

/-- The span in the segment of a group in the current match. -/
def groupSpan? (c : Stored) (index : Nat) : Option Span :=
  (c.found.bind (·.group? index)).map (·.shift c.base)

/-- The offset in the segment where the current match starts. -/
def start? (c : Stored) : Option Nat := (c.groupSpan? 0).map Span.start

/-- Whether the leftmost match starts where the region does. If it does not, its match is dropped
and the next search starts where it would have; its base stays. -/
def lookingAt (c : Stored) : Bool × Stored :=
  let (found, c') := c.search c.region.start
  if found ∧ c'.start? = some c.region.start then (true, c')
  else (false, { c' with found := none, nextStart := c.nextStart })

/-- The pattern that matches whole texts only, read when it is first needed. -/
def wholePattern (c : Stored) : Except Pattern.SyntaxError (Pattern × Stored) :=
  match c.whole with
  | some p => .ok (p, c)
  | none => (Pattern.compile {} c.pattern.wholeSource).map fun p => (p, { c with whole := some p })

/-- The matcher after it has been tried on the whole region with a result. -/
def settle (c : Stored) (found : Option Pattern.Match) : Bool × Stored :=
  (found.isSome, { c with
    found := found
    base := c.region.start
    nextStart := found.map fun _ => c.region.stop })

/-- Whether the pattern matches the whole region. -/
def matchesRegion (c : Stored) : Except Pattern.SyntaxError (Bool × Stored) :=
  let text := Text.slice c.segment.text c.region.start c.region.stop
  match c.pattern.findFrom text 0 with
  | none => .ok (c.settle none)
  | some found =>
    if found.span = ⟨0, Text.byteLength text⟩ then .ok (c.settle (some found))
    else if found.span.start = 0 then
      c.wholePattern.map fun (p, c) => c.settle (p.findFrom text 0)
    else .ok (c.settle none)

/-- A call, what it answers, and the matcher after it. -/
def perform (c : Stored) : Op → Answer × Stored
  | .find => (.found c.find.1, c.find.2)
  | .findFrom start => (.ofSearch (c.findFrom start).1, (c.findFrom start).2)
  | .lookingAt => (.found c.lookingAt.1, c.lookingAt.2)
  | .matchesRegion =>
    match c.matchesRegion with
    | .ok (isFound, c) => (.found isFound, c)
    | .error e => (.noPattern e, c)
  | .confine start stop =>
    match c.confine start stop with
    | .ok c => (.done, c)
    | .error e => (.misfit e, c)
  | .reset => (.done, c.reset)
  | .usePattern pattern => (.done, c.usePattern pattern)
  | .useBounds bounds => (.done, c.useBounds bounds)

/-- The matcher after some calls. -/
def run (c : Stored) (ops : List Op) : Stored := ops.foldl (fun c op => (c.perform op).2) c

/-! ## What they come to -/

/-- A new matcher is kept as it is. -/
theorem matcher_new (s : Segment) (p : Pattern) : (new s p).matcher = .new s p := rfl

variable {c : Stored}

/-- The segment is kept as it is. -/
@[simp] theorem matcher_segment : c.matcher.segment = c.segment := rfl

/-- The pattern is kept as it is. -/
@[simp] theorem matcher_pattern : c.matcher.pattern = c.pattern := rfl

/-- The pattern for whole texts is kept as it is. -/
@[simp] theorem matcher_whole : c.matcher.whole = c.whole := rfl

/-- The region is kept as it is, counted from the start of the segment. -/
@[simp] theorem matcher_region : c.matcher.region = c.region := rfl

/-- The place of the next search is kept as it is. -/
@[simp] theorem matcher_nextStart : c.matcher.nextStart = c.nextStart := rfl

/-- What a search finds is kept with the start of the text that it was found in. -/
theorem search_matcher (start : Nat) :
    c.matcher.search start = ((c.search start).1, (c.search start).2.matcher) := by
  unfold Matcher.search search
  by_cases hout : start < c.region.start ∨ c.region.stop < start
  · have hout' : start < c.matcher.region.start ∨ c.matcher.region.stop < start := hout
    rw [if_pos hout, if_pos hout']
    rfl
  · have hin : ¬ (start < c.matcher.region.start ∨ c.matcher.region.stop < start) := hout
    rw [if_neg hout, if_neg hin]
    simp only [matcher_pattern]
    cases c.pattern.findFrom c.matcher.haystack.1 (start - c.matcher.haystack.2) with
    | none => rfl
    | some f => rfl

/-- A search leaves everything else as it is. -/
theorem search_keeps (start : Nat) : ∃ found base next,
    (c.search start).2 = { c with found := found, base := base, nextStart := next } := by
  unfold search
  split_ifs
  · exact ⟨_, _, _, rfl⟩
  · simp only
    cases c.pattern.findFrom c.matcher.haystack.1 (start - c.matcher.haystack.2) with
    | none => exact ⟨_, _, _, rfl⟩
    | some f => exact ⟨_, _, _, rfl⟩

/-- What is kept finds what the matcher finds. -/
theorem find_matcher : c.matcher.find = (c.find.1, c.find.2.matcher) := by
  unfold Matcher.find find
  rw [matcher_nextStart]
  cases c.nextStart with
  | none => rfl
  | some start => exact search_matcher start

/-- From an offset on, what is kept finds what the matcher finds. -/
theorem findFrom_matcher (start : Nat) :
    c.matcher.findFrom start = ((c.findFrom start).1, (c.findFrom start).2.matcher) := by
  have hreset : c.matcher.reset = c.reset.matcher := rfl
  simp only [Matcher.findFrom, findFrom, hreset, search_matcher, matcher_segment]
  cases c.reset.segment.checkRange start c.reset.segment.length with
  | error e => rfl
  | ok u => rfl

/-- The current match starts behind the base that it is counted from. -/
theorem start?_matcher : c.matcher.found.map (·.span.start) = c.start? := by
  unfold start? groupSpan? matcher
  cases c.found with
  | none => rfl
  | some f => rfl

/-- Groups are counted from the base too. -/
theorem groupSpan?_matcher (index : Nat) : c.matcher.groupSpan? index = c.groupSpan? index := by
  unfold Matcher.groupSpan? groupSpan? matcher
  cases c.found with
  | none => rfl
  | some f => exact f.group?_shift c.base index

/-- A look that fails may leave another base, which makes no difference once there is no match. -/
theorem lookingAt_matcher : c.matcher.lookingAt = (c.lookingAt.1, c.lookingAt.2.matcher) := by
  obtain ⟨found, base, next, hkeeps⟩ := c.search_keeps c.region.start
  simp only [Matcher.lookingAt, lookingAt, matcher_region, search_matcher, start?_matcher]
  split_ifs
  · rfl
  · rw [hkeeps]
    rfl

/-- What is kept compiles the pattern for whole texts when the matcher does. -/
theorem wholePattern_matcher : c.matcher.wholePattern =
    c.wholePattern.map fun (q, c') => (q, c'.matcher) := by
  unfold Matcher.wholePattern wholePattern
  rw [matcher_whole, matcher_pattern]
  cases c.whole with
  | some q => rfl
  | none =>
    cases Pattern.compile {} c.pattern.wholeSource with
    | error e => rfl
    | ok q => rfl

/-- What is kept answers as the matcher does whether all of the region matches. -/
theorem matchesRegion_matcher : c.matcher.matchesRegion =
    c.matchesRegion.map fun (isFound, c') => (isFound, c'.matcher) := by
  unfold Matcher.matchesRegion matchesRegion
  simp only [matcher_segment, matcher_region, matcher_pattern, wholePattern_matcher]
  cases c.pattern.findFrom (Text.slice c.segment.text c.region.start c.region.stop) 0 with
  | none => rfl
  | some f =>
    simp only
    split_ifs
    · rfl
    · cases c.wholePattern with
      | error e => rfl
      | ok found => rfl
    · rfl

/-- A call answers the same as on the matcher that is stood for, and leaves what stands for the
matcher after it. -/
theorem perform_matcher (op : Op) :
    c.matcher.perform op = ((c.perform op).1, (c.perform op).2.matcher) := by
  cases op with
  | find => simp only [Matcher.perform, perform, find_matcher]
  | findFrom start => simp only [Matcher.perform, perform, findFrom_matcher]
  | lookingAt => simp only [Matcher.perform, perform, lookingAt_matcher]
  | matchesRegion =>
    simp only [Matcher.perform, perform, matchesRegion_matcher]
    cases c.matchesRegion with
    | error e => rfl
    | ok r => rfl
  | confine start stop =>
    simp only [Matcher.perform, perform, Matcher.confine, confine, matcher_segment]
    cases c.segment.checkRange start stop with
    | error e => rfl
    | ok u => rfl
  | reset => rfl
  | usePattern p => rfl
  | useBounds b => rfl

/-- So does any number of calls. -/
theorem run_matcher (ops : List Op) : c.matcher.run ops = (c.run ops).matcher := by
  induction ops generalizing c with
  | nil => rfl
  | cons op ops ih =>
    have hnext := ih (c := (c.perform op).2)
    simp only [Matcher.run, List.foldl_cons, perform_matcher op]
    exact hnext

end Stored

end SourceText.Matcher
