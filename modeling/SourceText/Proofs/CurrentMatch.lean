import SourceText.Proofs.Bounds
import SourceText.Proofs.Whole

/-!
# The current match of a matcher

`Matcher.Regular` is what can be counted on of a matcher after any calls, in terms of its own
answers: where its region and the next search are, where the groups of the current match lie, and
that the match comes of a search in the region (`Coherent.regular`).

The groups of the current match are counted and named by the pattern that is searched for, while the
match may come of the pattern that matches whole texts only, which is read again from the text
without flags. Both have the same groups if the flags do not leave out blanks and comments
(`lookupsAgree_of_not_extended`). Otherwise they may not: in `#(b)` before a line feed the first
sees a comment, and the second a group (`Pattern.commented`).
-/

namespace SourceText

open Text (byteLength isBoundary)

namespace Pattern

/-- A text reads as the pattern under some of the flags. -/
def ReadWithin (allowed : Flags → Prop) (p : Pattern) : Prop := ∃ f, allowed f ∧ p.ReadWith f

/-- The pattern for whole texts counts and names its groups as the other does. -/
theorem groups_whole {f : Flags} (hf : f.extended = false) {p q : Pattern} (hp : p.ReadWith f)
    (hq : compile {} p.wholeSource = .ok q) :
    q.groupCount = p.groupCount ∧
      ∀ name, q.node.groupIndex? name = p.node.groupIndex? name := by
  obtain ⟨source, hp⟩ := hp
  unfold compile at hp hq
  obtain ⟨n, hn, rfl⟩ := map_eq_ok.mp hp
  obtain ⟨n', hn', rfl⟩ := map_eq_ok.mp hq
  obtain ⟨hsame, hapart, -⟩ := Reader.read_whole hf hn hn'
  exact ⟨Node.groupCount_eq_of_same hsame, Node.groupIndex?_eq_of_same hsame hapart⟩

end Pattern

namespace Matcher

/-- What can be counted on of a matcher. -/
structure Regular (m : Matcher) : Prop where
  /-- The region is a range of the segment. -/
  region : m.region.Inside m.segment.text 0 m.segment.length
  /-- The next search starts in the region. -/
  next : ∀ n, m.nextStart = some n →
    m.region.start ≤ n ∧ n ≤ m.region.stop ∧ isBoundary m.segment.text n
  /-- A group lies in the region. -/
  group : ∀ i span, m.groupSpan? i = some span →
    span.Inside m.segment.text m.region.start m.region.stop
  /-- It lies in the match. -/
  groupInMatch : ∀ i span, m.groupSpan? i = some span → ∃ whole, m.groupSpan? 0 = some whole ∧
    whole.start ≤ span.start ∧ span.stop ≤ whole.stop
  /-- As a segment it is what is between its offsets. -/
  groupSegment : ∀ i start stop, m.startOf? i = some start → m.stopOf? i = some stop →
    ∃ t, m.groupAt? i = some t ∧ m.segment.substring start stop = .ok t
  /-- The match comes of a search in the region. -/
  origin : ∀ f, m.found = some f → ∃ q, m.FoundBy f q

/-- The groups of the current match are counted and named as the pattern has them that found it. -/
def LookupsAgree (m : Matcher) : Prop :=
  ∀ f q, m.found = some f → m.FoundBy f q →
    m.groupCount = q.groupCount ∧ ∀ name, m.groupIndex? name = q.node.groupIndex? name

variable {m : Matcher}

/-- A group lies in the match, and with it in the region. -/
theorem Coherent.group_inside (hm : m.Coherent) {i : Nat} {span : Span}
    (h : m.groupSpan? i = some span) : ∃ whole, m.groupSpan? 0 = some whole ∧
      span.Inside m.segment.text whole.start whole.stop ∧
      whole.Inside m.segment.text m.region.start m.region.stop := by
  obtain ⟨f, hf, hgroup⟩ := Option.bind_eq_some_iff.mp h
  have hwithin := hm.found f hf
  refine ⟨f.span, ?_, hwithin.group hgroup, hwithin.span⟩
  rw [groupSpan?, hf]
  rfl

/-- A matcher that is coherent is regular. -/
theorem Coherent.regular (hm : m.Coherent) : m.Regular where
  region := hm.region
  next := hm.next
  group i span h := by
    obtain ⟨whole, -, hspan, hwhole⟩ := hm.group_inside h
    exact hspan.mono hwhole.low_le hwhole.le_high
  groupInMatch i span h := by
    obtain ⟨whole, hzero, hspan, -⟩ := hm.group_inside h
    exact ⟨whole, hzero, hspan.low_le, hspan.le_high⟩
  groupSegment i start stop hstart hstop := by
    obtain ⟨span, hspan, rfl⟩ := Option.map_eq_some_iff.mp hstart
    obtain ⟨span', hspan', rfl⟩ := Option.map_eq_some_iff.mp hstop
    obtain rfl : span' = span := Option.some.inj (hspan'.symm.trans hspan)
    obtain ⟨whole, -, hin, hwhole⟩ := hm.group_inside hspan
    refine ⟨_, by rw [groupAt?, hspan]; rfl, Segment.substring_eq_ok_iff.mpr ⟨?_, rfl⟩⟩
    exact hin.mono (Nat.zero_le _) (Nat.le_trans hwhole.le_high hm.region.le_high)
  origin := hm.origin

/-- Where comments are not left out, groups are looked up in a pattern that has the same groups as
the one that found the match. -/
theorem lookupsAgree_of_not_extended {f : Pattern.Flags} (hf : f.extended = false)
    (hm : m.pattern.ReadWith f) : m.LookupsAgree := by
  rintro g q - ⟨rfl | hq, -⟩
  · exact ⟨rfl, fun _ => rfl⟩
  · -- The pattern for whole texts found it, and has the same groups.
    obtain ⟨hcount, hindex⟩ := Pattern.groups_whole hf hm hq
    exact ⟨hcount.symm, fun name => (hindex name).symm⟩

end Matcher

/-! ## Comments that hold groups -/

namespace Pattern

/-- A comment with parentheses in it, and then an empty group called `n`. -/
def commented : Pattern := ⟨"#(b)\n(?<n>)".toList, .group 1 (some ['n']) .empty⟩

/-- Any flags that leave out comments leave this one out. -/
theorem readWith_commented {f : Flags} (hf : f.extended = true) : commented.ReadWith f := by
  obtain ⟨ignoreCase, multiLine, dotAll, swapGreed, extended⟩ := f
  obtain rfl : extended = true := hf
  exact ⟨commented.source, rfl⟩

/-- Without flags the comment is none, and the parentheses in it are a group. -/
def commentedWhole : Pattern where
  source := commented.wholeSource
  node := .seq (.assertion .textStart) (.seq (.literal ['#']) (.seq (.group 1 none (.literal ['b']))
    (.seq (.literal ['\n']) (.seq (.group 2 (some ['n']) .empty) (.assertion .textEnd)))))

/-- This is what reading the anchored copy comes to. -/
theorem compile_commentedWhole : compile {} commented.wholeSource = .ok commentedWhole := by rfl

end Pattern

namespace Matcher

/-- The matcher that has asked whether `Pattern.commented` matches the whole of a comment. -/
def overComment : Matcher :=
  (((Segment.ofText "#b\n".toList [] ⟨0, 0⟩).matcher .commented).perform .matchesRegion).2

/-- Calls lead to that matcher. -/
theorem overComment_reachable {P : Pattern → Prop} (hP : P .commented) :
    Reachable P (.ofText "#b\n".toList [] ⟨0, 0⟩) overComment :=
  .step (.new hP) (by simp [Op.pattern?])

/-- What it has found: the whole of it, with a group in the comment and an empty one behind. -/
def commentMatch : Pattern.Match := ⟨⟨0, 3⟩, [(2, ⟨3, 3⟩), (1, ⟨1, 2⟩)]⟩

/-- That is its current match. -/
theorem found_overComment : overComment.found = some commentMatch := by rfl

/-- Only the pattern for whole texts finds it: the other matches nothing but empty texts. -/
theorem foundBy_overComment_iff {q : Pattern} :
    overComment.FoundBy commentMatch q ↔ q = .commentedWhole := by
  constructor
  · rintro ⟨rfl | hq, base, offset, g, hbase, hfind, hg⟩
    · -- From each of the four offsets of the text it finds a match that is empty.
      obtain rfl : base = 0 := by rcases hbase with h | h <;> exact h
      match offset, hfind with
      | 0, hfind | 1, hfind | 2, hfind | 3, hfind =>
        obtain rfl := Option.some.inj hfind
        cases hg
      | n + 4, hfind => cases hfind
    · exact (Except.ok.inj (Pattern.compile_commentedWhole.symm.trans hq)).symm
  · rintro rfl
    exact ⟨.inr Pattern.compile_commentedWhole, 0, 0, _, .inl rfl, by rfl, rfl⟩

/-- Its pattern has one group, and the pattern that found the match has two. -/
theorem not_lookupsAgree_overComment : ¬ overComment.LookupsAgree := by
  intro h
  have hcount : 1 = 2 := (h _ _ found_overComment (foundBy_overComment_iff.mpr rfl)).1
  cases hcount

/-! ## All matchers -/

/-- After any calls a matcher is regular. The groups of its current match are counted and named as
the pattern has them that found it, whatever the patterns and the calls, if and only if no pattern
is read under flags that leave out blanks and comments. -/
theorem regular_and_lookupsAgree_iff (allowed : Pattern.Flags → Prop) :
    (∀ P d s m, Segment.Reachable d s → Reachable P s m → m.Regular) ∧
      ((∀ d s m, Segment.Reachable d s → Reachable (Pattern.ReadWithin allowed) s m →
          m.LookupsAgree) ↔
        ∀ f, allowed f → f.extended = false) := by
  refine ⟨fun P d s m hs hm => ?_, fun h f hf => ?_, fun h d s m hs hm => ?_⟩
  · obtain ⟨hplaced, -⟩ := hs.wellPlaced
    exact (hm.coherent hplaced).1.regular
  · cases hextended : f.extended with
    | false => rfl
    | true =>
      -- Under these flags `Pattern.commented` can be read, and its lookups do not agree.
      have hread : Pattern.ReadWithin allowed .commented :=
        ⟨f, hf, Pattern.readWith_commented hextended⟩
      exact absurd (h _ _ _ .root (overComment_reachable hread)) not_lookupsAgree_overComment
  · obtain ⟨hplaced, -⟩ := hs.wellPlaced
    obtain ⟨-, -, f, hf, hread⟩ := hm.coherent hplaced
    exact lookupsAgree_of_not_extended (h f hf) hread

/-- Words are read without flags, so a matcher that has found one is an instance. -/
theorem lookupsAgree_first_word :
    ((Segment.ofText "ab".toList [] ⟨0, 0⟩).matcher Token.word).find.1 = true ∧
      ((Segment.ofText "ab".toList [] ⟨0, 0⟩).matcher Token.word).find.2.Regular ∧
      ((Segment.ofText "ab".toList [] ⟨0, 0⟩).matcher Token.word).find.2.LookupsAgree := by
  have hread : Pattern.ReadWithin (· = {}) Token.word := ⟨{}, rfl, _, Token.compile_word⟩
  have hm : Reachable (Pattern.ReadWithin (· = {})) (.ofText "ab".toList [] ⟨0, 0⟩)
      (((Segment.ofText "ab".toList [] ⟨0, 0⟩).matcher Token.word).perform .find).2 :=
    .step (.new hread) (by simp [Op.pattern?])
  obtain ⟨hregular, hlookups⟩ := regular_and_lookupsAgree_iff (· = {})
  refine ⟨by rfl, hregular _ _ _ _ .root hm, hlookups.mpr ?_ _ _ _ .root hm⟩
  rintro f rfl
  rfl

/-- Under flags that leave out comments they need not agree: the group called `n` is the second of
the one pattern that can have found the match, and is looked up as the first. -/
theorem lookups_differ_over_comment :
    Reachable Pattern.IsRead (.ofText "#b\n".toList [] ⟨0, 0⟩) overComment ∧
      overComment.found = some commentMatch ∧
      (∀ q, overComment.FoundBy commentMatch q ↔ q = .commentedWhole) ∧
      overComment.groupCount = 1 ∧ Pattern.commentedWhole.groupCount = 2 ∧
      overComment.groupIndex? ['n'] = some 1 ∧
      Pattern.commentedWhole.node.groupIndex? ['n'] = some 2 ∧
      commentMatch.group? 1 = some ⟨1, 2⟩ ∧ commentMatch.group? 2 = some ⟨3, 3⟩ := by
  have hread : Pattern.IsRead .commented :=
    ⟨{ extended := true }, Pattern.readWith_commented rfl⟩
  exact ⟨overComment_reachable hread, found_overComment, fun _ => foundBy_overComment_iff, rfl, rfl,
    rfl, rfl, rfl, rfl⟩

end Matcher

end SourceText
