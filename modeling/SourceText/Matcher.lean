import SourceText.Segment.Split

/-!
# Matchers

A matcher searches one segment with a pattern, match by match. It keeps a region of the segment that
it is confined to, the current match, and the offset where the next search starts. Under anchoring
bounds the region is all that the pattern sees; under transparent bounds its assertions also see
the text before the region. The end of the region is an end of the text under both.
-/

namespace SourceText

/-- What a pattern sees at the edges of a region. -/
inductive Bounds where
  /-- The edges are edges of the text. -/
  | anchoring
  /-- The text before the region can be seen. -/
  | transparent
  deriving DecidableEq, Repr

/-- A search through a segment. -/
structure Matcher where
  /-- What is searched. -/
  segment : Segment
  /-- What is searched for. -/
  pattern : Pattern
  /-- The pattern that matches whole texts only, once it has been needed. -/
  whole : Option Pattern
  /-- The part of the segment that the search is confined to. -/
  region : Span
  /-- What the pattern sees at the edges of the region. -/
  bounds : Bounds
  /-- The current match, in offsets into the segment. -/
  found : Option Pattern.Match
  /-- Where the next search starts, or nothing when the matches have run out. -/
  nextStart : Option Nat
  deriving DecidableEq, Repr

namespace Matcher

/-- A matcher before its first search of a whole segment. -/
def new (segment : Segment) (pattern : Pattern) : Matcher where
  segment := segment
  pattern := pattern
  whole := none
  region := ⟨0, segment.length⟩
  bounds := .anchoring
  found := none
  nextStart := some 0

/-- Goes on with another pattern from where the search stands. There is no current match until the
next one is found. -/
def usePattern (m : Matcher) (pattern : Pattern) : Matcher :=
  { m with pattern := pattern, whole := none, found := none }

/-- Chooses what the pattern sees at the edges of the region. -/
def useBounds (m : Matcher) (bounds : Bounds) : Matcher := { m with bounds := bounds }

/-- Confines the matcher to a part of the segment and starts over there. -/
def confine (m : Matcher) (start stop : Nat) : Except IndexError Matcher :=
  (m.segment.checkRange start stop).map fun _ =>
    { m with region := ⟨start, stop⟩, found := none, nextStart := some start }

/-- Starts over with the whole segment as region. -/
def reset (m : Matcher) : Matcher :=
  { m with region := ⟨0, m.segment.length⟩, found := none, nextStart := some 0 }

/-- The matcher without a match, and without a place to search from. -/
def exhausted (m : Matcher) : Matcher := { m with found := none, nextStart := none }

/-- The text that the pattern sees, and the offset of its first byte. -/
def haystack (m : Matcher) : Text × Nat :=
  match m.bounds with
  | .anchoring => (Text.slice m.segment.text m.region.start m.region.stop, m.region.start)
  | .transparent => (Text.slice m.segment.text 0 m.region.stop, 0)

/-- Searches the region from an offset on. -/
def search (m : Matcher) (start : Nat) : Bool × Matcher :=
  if start < m.region.start ∨ m.region.stop < start then (false, m.exhausted)
  else
    let (text, base) := m.haystack
    match m.pattern.findFrom text (start - base) with
    | some found =>
      let found := found.shift base
      (true, { m with
        found := some found
        nextStart := Pattern.nextSearchStart m.segment.text found.span m.region.stop })
    | none => (false, m.exhausted)

/-- Searches for the next match. -/
def find (m : Matcher) : Bool × Matcher :=
  match m.nextStart with
  | some start => m.search start
  | none => (false, { m with found := none })

/-- Starts over and searches from an offset on. The matcher has started over even if the offset does
not fit. -/
def findFrom (m : Matcher) (start : Nat) : Except IndexError Bool × Matcher :=
  let m := m.reset
  match m.segment.checkRange start m.segment.length with
  | .ok () => let (found, m) := m.search start; (.ok found, m)
  | .error e => (.error e, m)

/-- Whether the leftmost match starts where the region does. If it does not, the next search goes on
as if this one had not been. -/
def lookingAt (m : Matcher) : Bool × Matcher :=
  let (found, m') := m.search m.region.start
  if found ∧ m'.found.map (·.span.start) = some m.region.start then (true, m')
  else (false, { m with found := none })

/-- The pattern that matches whole texts only, read when it is first needed. -/
def wholePattern (m : Matcher) : Except Pattern.SyntaxError (Pattern × Matcher) :=
  match m.whole with
  | some p => .ok (p, m)
  | none => (Pattern.compile {} m.pattern.wholeSource).map fun p => (p, { m with whole := some p })

/-- The matcher after it has been tried on the whole region with a result. -/
def settle (m : Matcher) (found : Option Pattern.Match) : Bool × Matcher :=
  (found.isSome, { m with
    found := found.map (·.shift m.region.start)
    nextStart := found.map fun _ => m.region.stop })

/-- Whether the pattern matches the whole region. The preferred match may end too soon where another
would not, so then the pattern that matches whole texts only decides; it is made from the pattern's
text, without the flags that were given with it. -/
def matchesRegion (m : Matcher) : Except Pattern.SyntaxError (Bool × Matcher) :=
  let text := Text.slice m.segment.text m.region.start m.region.stop
  match m.pattern.findFrom text 0 with
  | none => .ok (m.settle none)
  | some found =>
    if found.span = ⟨0, Text.byteLength text⟩ then .ok (m.settle (some found))
    else if found.span.start = 0 then
      m.wholePattern.map fun (p, m) => m.settle (p.findFrom text 0)
    else .ok (m.settle none)

/-- How many groups the pattern has. -/
def groupCount (m : Matcher) : Nat := m.pattern.groupCount

/-- The span of a group in the current match, if there is one and the group took part. -/
def groupSpan? (m : Matcher) (index : Nat) : Option Span := m.found.bind (·.group? index)

/-- The offset where a group of the current match starts. -/
def startOf? (m : Matcher) (index : Nat) : Option Nat := (m.groupSpan? index).map Span.start

/-- The offset where a group of the current match ends. -/
def stopOf? (m : Matcher) (index : Nat) : Option Nat := (m.groupSpan? index).map Span.stop

/-- A group of the current match as a segment. -/
def groupAt? (m : Matcher) (index : Nat) : Option Segment :=
  (m.groupSpan? index).map fun span => m.segment.derive span.start span.stop

/-- The current match as a segment. -/
def group? (m : Matcher) : Option Segment := m.groupAt? 0

/-- The index of the group of a name. -/
def groupIndex? (m : Matcher) (name : Text) : Option Nat := m.pattern.node.groupIndex? name

end Matcher

/-- A matcher that searches the segment. -/
def Segment.matcher (s : Segment) (p : Pattern) : Matcher := .new s p

/-- Whether the pattern matches the whole segment. -/
def Segment.matchesWhole (s : Segment) (p : Pattern) : Except Pattern.SyntaxError Bool :=
  (s.matcher p).matchesRegion.map Prod.fst

end SourceText
