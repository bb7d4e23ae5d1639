import SourceText.Proofs.Ahead
import SourceText.Proofs.Alike

/-!
# Segments that can take each other's place

A segment may be cut out of a part of a part of a document, and a root may be made of its text, its
source and its start. The two are alike, and nothing that is cut out of them, found in them or read
from them tells them apart (`Reachable.interchangeable_ofText`).

What is cut out of alike segments is alike (`Alike.derive`). A matcher looks at nothing of its
segment but the text and the length until a group is asked for, so with a segment of the same text
in place of its own it answers the same and goes through the same states (`Matcher.run_onto`).
Parsers at the same place of alike segments stay abreast of each other (`Parser.Abreast`): what is
ahead of them is alike, so calls have alike outcomes and leave both at the same place. The message
of an error may depend on all that the parser is, its document included, so it is the same where it
says the same of both (`Parser.Op.SaysSame`).
-/

namespace SourceText

open Text (byteLength isBoundary)

/-! ## Matchers -/

namespace Matcher

/-- The matcher with another segment in place of its own. -/
def onto (m : Matcher) (t : Segment) : Matcher := { m with segment := t }

section Onto

variable (m : Matcher) (t : Segment)

/-- The segment is what has been put in place. -/
@[simp] theorem onto_segment : (m.onto t).segment = t := rfl

/-- The pattern stays. -/
@[simp] theorem onto_pattern : (m.onto t).pattern = m.pattern := rfl

/-- The region stays, as it is a pair of offsets. -/
@[simp] theorem onto_region : (m.onto t).region = m.region := rfl

/-- The current match stays, as it is made of offsets. -/
@[simp] theorem onto_found : (m.onto t).found = m.found := rfl

/-- The next search starts at the same offset. -/
@[simp] theorem onto_nextStart : (m.onto t).nextStart = m.nextStart := rfl

/-- Spans of groups are offsets, so they stay as well. -/
@[simp] theorem onto_groupSpan? (index : Nat) : (m.onto t).groupSpan? index = m.groupSpan? index :=
  rfl

/-- The pattern that matches whole texts only does not depend on the segment. -/
theorem wholePattern_onto :
    (m.onto t).wholePattern = m.wholePattern.map fun (q, m') => (q, m'.onto t) :=
  wholePattern_map (·.onto t) rfl rfl fun _ => rfl

variable {m t} (htext : m.segment.text = t.text)
include htext

/-- A search looks at nothing of the segment but its text. -/
theorem search_onto (start : Nat) :
    (m.onto t).search start = ((m.search start).1, (m.search start).2.onto t) := by
  have hhaystack : (m.onto t).haystack = m.haystack := by
    simp only [haystack, onto, htext]
  simp only [search, hhaystack, onto_region, onto_pattern, onto_segment, ← htext]
  split_ifs
  · rfl
  · cases m.pattern.findFrom m.haystack.1 (start - m.haystack.2) with
    | none => rfl
    | some f => rfl

/-- A look at the start of the region is a search there, so it looks at nothing else either. -/
theorem lookingAt_onto : (m.onto t).lookingAt = (m.lookingAt.1, m.lookingAt.2.onto t) := by
  unfold lookingAt
  simp only [onto_region, search_onto htext, onto_found]
  split_ifs
  · rfl
  · rfl

/-- Asking whether all of the region matches looks at nothing of the segment but its text. -/
theorem matchesRegion_onto : (m.onto t).matchesRegion =
    m.matchesRegion.map fun (isFound, m') => (isFound, m'.onto t) := by
  unfold matchesRegion
  simp only [onto_segment, onto_region, onto_pattern, ← htext, wholePattern_onto]
  cases m.pattern.findFrom (Text.slice m.segment.text m.region.start m.region.stop) 0 with
  | none => rfl
  | some f =>
    simp only
    split_ifs
    · rfl
    · -- The pattern for whole texts decides, and is the same for both.
      cases m.wholePattern with
      | error e => rfl
      | ok found => rfl
    · rfl

variable (hlength : m.segment.length = t.length)
include hlength

/-- Ranges are checked against the text. -/
theorem checkRange_onto (start stop : Nat) :
    t.checkRange start stop = m.segment.checkRange start stop := by
  unfold Segment.checkRange
  rw [htext, hlength]

/-- A call on the matcher answers the same with another segment of the same text, and has the same
effect. -/
theorem perform_onto (op : Op) :
    (m.onto t).perform op = ((m.perform op).1, (m.perform op).2.onto t) := by
  cases op with
  | find =>
    simp only [perform, find, onto_nextStart]
    cases m.nextStart with
    | none => rfl
    | some start => simp only [search_onto htext]
  | findFrom start =>
    -- The offset is checked after starting over, which keeps the segment.
    have hreset : (m.onto t).reset = m.reset.onto t := by
      simp only [reset, onto, hlength]
    have hsearch := search_onto (m := m.reset) htext start
    have hcheck : t.checkRange start t.length =
        m.reset.segment.checkRange start m.reset.segment.length := by
      rw [checkRange_onto htext hlength, ← hlength]
      rfl
    simp only [perform, findFrom, hreset, hsearch, onto_segment, hcheck]
    cases m.reset.segment.checkRange start m.reset.segment.length with
    | error e => rfl
    | ok u => rfl
  | lookingAt => simp only [perform, lookingAt_onto htext]
  | matchesRegion =>
    simp only [perform, matchesRegion_onto htext]
    cases m.matchesRegion with
    | error e => rfl
    | ok r => rfl
  | confine start stop =>
    simp only [perform, confine, onto_segment, checkRange_onto htext hlength]
    cases m.segment.checkRange start stop with
    | error e => rfl
    | ok u => rfl
  | reset => simp only [perform, reset, onto, hlength]
  | usePattern p => rfl
  | useBounds b => rfl

/-- So it does after any calls. -/
theorem run_onto (ops : List Op) : (m.onto t).run ops = (m.run ops).onto t := by
  induction ops generalizing m with
  | nil => rfl
  | cons op ops ih =>
    have hkeeps := (m.perform_keeps op).1
    have hnext := ih (m := (m.perform op).2) (by rw [hkeeps, htext]) (by rw [hkeeps, hlength])
    simp only [run, List.foldl_cons, perform_onto htext hlength op]
    exact hnext

end Onto

/-- Two matchers are in the same state, but for the segments that they search, and neither what they
answer nor the groups of their current matches tell them apart. -/
structure Interchangeable (m m' : Matcher) : Prop where
  /-- All but the segment is the same. -/
  state : m' = m.onto m'.segment
  /-- Every call answers the same. -/
  answer : ∀ op, (m.perform op).1 = (m'.perform op).1
  /-- The groups that took part are the same, and have the same offsets. -/
  groupSpan : ∀ index, m.groupSpan? index = m'.groupSpan? index
  /-- As segments they are alike. -/
  group : ∀ index, Option.Rel Segment.Alike (m.groupAt? index) (m'.groupAt? index)

/-- A coherent matcher can be told apart from none that searches an alike segment in its state. -/
theorem Coherent.interchangeable {m : Matcher} {t : Segment} (hm : m.Coherent)
    (h : m.segment.Alike t) (ht : t.WellPlaced) : m.Interchangeable (m.onto t) where
  state := rfl
  answer op := by
    rw [perform_onto h.1 (h.length_eq hm.segment ht)]
  groupSpan index := rfl
  group index := by
    simp only [groupAt?, onto_groupSpan?, onto_segment]
    cases hspan : m.groupSpan? index with
    | none => exact .none
    | some span =>
      obtain ⟨f, hf, hgroup⟩ := Option.bind_eq_some_iff.mp hspan
      exact .some (h.derive hm.segment ht ((hm.found f hf).group hgroup))

/-- Matchers for one pattern over alike segments cannot be told apart by any calls. -/
theorem run_interchangeable {s t : Segment} (h : s.Alike t) (hs : s.WellPlaced)
    (ht : t.WellPlaced) (p : Pattern) (ops : List Op) :
    ((s.matcher p).run ops).Interchangeable ((t.matcher p).run ops) := by
  have hlength := h.length_eq hs ht
  have hnew : t.matcher p = (s.matcher p).onto t := by
    simp only [Segment.matcher, new, onto, hlength]
  have hm : ((s.matcher p).run ops).Coherent := run_coherent (new_coherent hs p) ops
  have hsegment : ((s.matcher p).run ops).segment = s := segment_run _ ops
  rw [hnew, run_onto h.1 hlength]
  exact hm.interchangeable (by rw [hsegment]; exact h) ht

end Matcher

/-! ## Parsers -/

namespace Parser

/-- Two parsers stand at the same place of alike segments. -/
structure Abreast (p q : Parser) : Prop where
  /-- The segments are alike. -/
  segment : p.segment.Alike q.segment
  /-- The place is the same. -/
  index : p.index = q.index
  /-- It is a place in the one. -/
  left : p.Placed
  /-- It is one in the other. -/
  right : q.Placed

namespace Abreast

variable {p q : Parser} (h : p.Abreast q)
include h

/-- Parsers that are abreast have segments of the same length. -/
theorem length_eq : p.segment.length = q.segment.length :=
  h.segment.length_eq h.left.segment h.right.segment

/-- The same text is left, and its beginnings are alike parts. -/
theorem sameAhead : SameAhead Segment.Alike p q where
  left := h.left
  right := h.right
  remaining := by
    rw [remaining, remaining, h.segment.1, h.index]
  ahead taken r hr := by
    obtain ⟨l, htext, hl⟩ := h.left.cut
    have hin := Span.inside_of_cut l taken r
    rw [List.append_assoc, ← hr, ← htext, Text.byteLength_append, hl] at hin
    rw [ahead, ahead, ← h.index]
    exact h.segment.derive h.left.segment h.right.segment hin

/-- An offset is a place in both segments or in neither. -/
theorem moveTo (index : Nat) (agree : Prop) :
    (p.perform (.moveTo index)).1.Rel Segment.Alike agree (q.perform (.moveTo index)).1 ∧
      (p.perform (.moveTo index)).2.index = (q.perform (.moveTo index)).2.index := by
  simp only [perform, Parser.moveTo, ← h.length_eq, ← h.segment.1]
  split_ifs
  · exact ⟨.misfit _, h.index⟩
  · exact ⟨.done, rfl⟩
  · exact ⟨.misfit _, h.index⟩

/-- Whatever the call, it does the same with both parsers and leaves them at the same place. -/
theorem perform (op : Op) :
    (p.perform op).1.Rel Segment.Alike (op.SaysSame p q) (q.perform op).1 ∧
      (p.perform op).2.index = (q.perform op).2.index := by
  cases hop : op.isMove with
  | false =>
    obtain ⟨houtcome, taken, hp, hq⟩ := h.sameAhead.perform_agree hop
    obtain ⟨-, -, hstop⟩ := hp.remaining_eq
    obtain ⟨-, -, hstop'⟩ := hq.remaining_eq
    exact ⟨houtcome, by rw [hstop, hstop', h.index]⟩
  | true =>
    cases op with
    | moveTo index => exact h.moveTo index _
    | advance amount =>
      have hmove := h.moveTo (saturatingAdd p.index amount)
        (Op.SaysSame (.advance amount) p q)
      simp only [Parser.perform, advance, ← h.index]
      exact hmove
    | literal _ _ | anyChar _ | token _ _ | blanks _ | word _ | decimal _ | rest | skipToBlank
    | fail _ | errorHere _ => exact Bool.noConfusion hop

/-- After any calls they are still abreast. -/
theorem run (ops : List Op) : (p.run ops).Abreast (q.run ops) := by
  induction ops generalizing p q with
  | nil => exact h
  | cons op ops ih =>
    have hp := perform_reads h.left op
    have hq := perform_reads h.right op
    exact ih ⟨by rw [hp.segment, hq.segment]; exact h.segment, (h.perform op).2,
      hp.placed h.left, hq.placed h.right⟩

end Abreast

/-- Nothing that two parsers answer tells them apart. -/
structure Interchangeable (p q : Parser) : Prop where
  /-- They stand at the same place. -/
  index : p.index = q.index
  /-- Both are at the end, or neither is. -/
  atEnd : p.atEnd = q.atEnd
  /-- The next character is the same. -/
  current? : p.current? = q.current?
  /-- Every call does the same, with alike segments. -/
  outcome : ∀ op, (p.perform op).1.Rel Segment.Alike (op.SaysSame p q) (q.perform op).1

/-- Parsers of alike segments cannot be told apart by any calls. -/
theorem run_interchangeable {s t : Segment} (h : s.Alike t) (hs : s.WellPlaced)
    (ht : t.WellPlaced) (ops : List Op) :
    ((ofSegment s).run ops).Interchangeable ((ofSegment t).run ops) := by
  have habreast : (ofSegment s).Abreast (ofSegment t) :=
    ⟨h, rfl, ofSegment_placed hs, ofSegment_placed ht⟩
  have hrun := habreast.run ops
  exact ⟨hrun.index, hrun.sameAhead.atEnd_eq, hrun.sameAhead.current?_eq,
    fun op => (hrun.perform op).1⟩

end Parser

/-! ## Segments -/

namespace Segment

/-- Nothing that is cut out of two segments, found in them or read from them tells them apart. -/
structure Interchangeable (s t : Segment) : Prop where
  /-- The segments are alike. -/
  alike : s.Alike t
  /-- So are the parts between two offsets, or they are refused for the same reason. -/
  substring : ∀ start stop, SameResult Alike (s.substring start stop) (t.substring start stop)
  /-- So are the parts from an offset on. -/
  substringFrom : ∀ start, SameResult Alike (s.substringFrom start) (t.substringFrom start)
  /-- So are the characters. -/
  charSegmentAt : ∀ n, SameResult Alike (s.charSegmentAt n) (t.charSegmentAt n)
  /-- So are the empty segments at the end. -/
  tail : s.tail.Alike t.tail
  /-- So are the segments without their blank edges. -/
  trim : s.trim.Alike t.trim
  /-- There are as many lines, and they are alike. -/
  lines : List.Forall₂ Alike s.lines t.lines
  /-- So are the pieces between the matches of a pattern. -/
  split : ∀ p limit, List.Forall₂ Alike (s.split p limit) (t.split p limit)
  /-- So are those between the matches of a text, or it is no pattern. -/
  splitText : ∀ separator limit,
    SameResult (List.Forall₂ Alike) (s.splitText separator limit) (t.splitText separator limit)
  /-- Matchers for the same pattern cannot be told apart by any calls. -/
  matcher : ∀ p ops, ((s.matcher p).run ops).Interchangeable ((t.matcher p).run ops)
  /-- Neither can parsers. -/
  parser : ∀ ops,
    ((Parser.ofSegment s).run ops).Interchangeable ((Parser.ofSegment t).run ops)

/-- Alike segments can take each other's place. -/
theorem Alike.interchangeable {s t : Segment} (h : s.Alike t) (hs : s.WellPlaced)
    (ht : t.WellPlaced) : s.Interchangeable t where
  alike := h
  substring := h.substring hs ht
  substringFrom := h.substringFrom hs ht
  charSegmentAt := h.charSegmentAt hs ht
  tail := h.tail hs ht
  trim := h.trim hs ht
  lines := h.lines hs ht
  split := h.split hs ht
  splitText := h.splitText hs ht
  matcher := Matcher.run_interchangeable h hs ht
  parser := Parser.run_interchangeable h hs ht

/-- A root made of the text, the source and the start of a segment can take the segment's place,
whatever the document and the operations that it comes of. -/
theorem Reachable.interchangeable_ofText {d : Document} {s : Segment} (hs : Reachable d s) :
    (ofText s.text s.source s.start).Interchangeable s := by
  obtain ⟨hplaced, -⟩ := hs.wellPlaced
  have hroot : (ofText s.text s.source s.start).WellPlaced := wellPlaced_ofDocument _
  have htext : (ofText s.text s.source s.start).text = s.text :=
    text_ofDocument ⟨s.text, s.source, s.start⟩
  exact (hroot.alike hplaced htext rfl rfl).interchangeable hroot hplaced

/-- The second half of a line break starts a segment on the line of the first half, and so does the
root made of it. -/
theorem interchangeable_cut_pair :
    (ofDocument ⟨"a\r\nb".toList, [], ⟨0, 0⟩⟩).substring 2 4 =
        .ok ⟨⟨"a\r\nb".toList, [], ⟨0, 0⟩⟩, false, 2, 4, ⟨0, 2⟩, ⟨1, 0⟩⟩ ∧
      (ofText "\nb".toList [] ⟨0, 2⟩).Interchangeable
        ⟨⟨"a\r\nb".toList, [], ⟨0, 0⟩⟩, false, 2, 4, ⟨0, 2⟩, ⟨1, 0⟩⟩ := by
  have hsub : (ofDocument ⟨"a\r\nb".toList, [], ⟨0, 0⟩⟩).substring 2 4 =
      .ok ⟨⟨"a\r\nb".toList, [], ⟨0, 0⟩⟩, false, 2, 4, ⟨0, 2⟩, ⟨1, 0⟩⟩ := by decide
  exact ⟨hsub, Reachable.interchangeable_ofText (.step .root (.substring hsub))⟩

end Segment

end SourceText
