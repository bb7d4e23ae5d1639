import SourceText.Proofs.Alike
import SourceText.Proofs.Enumeration

/-!
# A region whose edges are edges of the text

Confined to a part of a segment under anchoring bounds, a matcher does what a new matcher for the
part would do. It counts its offsets from the start of the segment and the other from that of the
part, and this is all that is different: `Mirrors` says so of their states, and every call that does
not choose another region or other bounds keeps it (`Mirrors.perform`).

A search sees the text of the region in both. Where it goes on is looked up in the whole segment by
the one, and cut off at the end of the region, and in the part by the other: behind an empty match
at the end of the region neither goes on (`nextSearchStart_shift`). As segments the groups are
alike, unless they are empty: the end of the part may be at another position than the same place in
the segment.
-/

namespace SourceText

open Text (byteLength isBoundary)

namespace Pattern

/-- A match that is moved by nothing stays where it is. -/
@[simp] theorem Match.shift_zero (m : Match) : m.shift 0 = m := by
  simp [Match.shift]

/-- The groups of a match move on with it. -/
theorem Match.group?_shift (m : Match) (base index : Nat) :
    (m.shift base).group? index = (m.group? index).map (·.shift base) := by
  have hlookup : ∀ groups : List (Nat × Span),
      (groups.map fun g => (g.1, g.2.shift base)).lookup index =
        (groups.lookup index).map (·.shift base) := by
    intro groups
    induction groups with
    | nil => rfl
    | cons g groups ih =>
      obtain ⟨number, span⟩ := g
      simp only [List.map_cons, List.lookup_cons]
      cases index == number with
      | true => rfl
      | false => exact ih
  unfold group?
  split_ifs
  · rfl
  · exact hlookup m.groups

/-- In a slice and in the text that it is taken from, the search goes on at the same place. -/
theorem nextSearchStart_shift {l h r : Text} {s : Span} (hs : isBoundary h s.stop = true) :
    nextSearchStart (l ++ h ++ r) (s.shift (byteLength l)) (byteLength (l ++ h)) =
      (nextSearchStart h s (byteLength h)).map (byteLength l + ·) := by
  obtain ⟨a, b, rfl, hstop⟩ := Text.isBoundary_iff.mp hs
  have hempty : (s.shift (byteLength l)).isEmpty = s.isEmpty := by
    simp [Span.isEmpty, Span.shift]
  have hinner : Text.charAt? (a ++ b) s.stop = b.head? := by
    rw [← hstop, Text.charAt?_append]
  have houter : Text.charAt? (l ++ (a ++ b) ++ r) (byteLength l + s.stop) = (b ++ r).head? := by
    have h := Text.charAt?_append (l ++ a) (b ++ r)
    rw [Text.byteLength_append, hstop] at h
    simpa using h
  unfold nextSearchStart
  rw [hempty]
  split_ifs
  · simp only [Span.shift, hinner, houter, Text.byteLength_append, hstop]
    cases b with
    | nil =>
      -- The slice ends here, and behind the next character the limit is past.
      cases r with
      | nil => rfl
      | cons c r =>
        have hpos := c.utf8Size_pos
        have hpast : ¬ byteLength l + s.stop + c.utf8Size ≤
            byteLength l + (s.stop + byteLength []) := by
          rw [Text.byteLength_nil]
          omega
        simp only [List.nil_append, List.head?_cons, List.head?_nil, Option.map_some,
          Option.map_none, Option.filter_some, Option.filter_none]
        rw [decide_eq_false hpast]
        rfl
    | cons c b => simp [Option.filter, Nat.add_assoc]
  · rfl

end Pattern

namespace Matcher

variable {m m' : Matcher}

/-- Whether a call leaves the region and the bounds as they are, and the search where it was. -/
def Op.keepsRegion : Op → Bool
  | .find | .lookingAt | .matchesRegion | .usePattern _ => true
  | .findFrom _ | .confine _ _ | .reset | .useBounds _ => false

/-- The matcher `m'` searches all of the part of a segment that is the region of `m`, and is in the
same state, but that `m` counts its offsets from `base` bytes ahead of the part. -/
structure Mirrors (base : Nat) (m m' : Matcher) : Prop where
  /-- The edges of the region are edges of the text. -/
  bounds : m.bounds = .anchoring
  /-- The region starts there. -/
  start : m.region.start = base
  /-- The other searches the region, as a segment of its own. -/
  part : m'.segment = m.segment.derive m.region.start m.region.stop
  /-- It searches all of it. -/
  region : m'.region = ⟨0, byteLength m.regionText⟩
  /-- The pattern is the same. -/
  pattern : m.pattern = m'.pattern
  /-- The current match is the same. -/
  found : m.found = m'.found.map (·.shift base)
  /-- The next search starts at the same place. -/
  next : m.nextStart = m'.nextStart.map (base + ·)

/-- Two calls answer the same, and leave matchers of which the one mirrors the other. -/
structure InStep {α : Type} (base : Nat) (result result' : α × Matcher) : Prop where
  /-- The answers are the same. -/
  answer : result.1 = result'.1
  /-- The matchers are in the same state. -/
  state : Mirrors base result.2 result'.2

/-- The part of the segment that is the region has the text of the region. -/
theorem Coherent.text_region (hm : m.Coherent) :
    (m.segment.derive m.region.start m.region.stop).text = m.regionText :=
  Segment.text_deriveAt_eq_slice hm.segment hm.region _

namespace Mirrors

variable {base : Nat} (h : Mirrors base m m')
include h

/-! ## States after a call -/

/-- When the matches have run out for both, the one mirrors the other still. -/
theorem exhausted : Mirrors base m.exhausted m'.exhausted := { h with found := rfl, next := rfl }

/-- When both have forgotten the current match, the one mirrors the other still. -/
theorem forget : Mirrors base { m with found := none } { m' with found := none } :=
  { h with found := rfl }

/-- The pattern for whole texts has no part in it. -/
theorem keep (whole whole' : Option Pattern) :
    Mirrors base { m with whole := whole } { m' with whole := whole' } :=
  ⟨h.bounds, h.start, h.part, h.region, h.pattern, h.found, h.next⟩

/-- The one searches the text of its region, which starts at the base. -/
theorem haystack_left : m.haystack = (m.regionText, base) := by
  rw [haystack_eq (.inl h.bounds), h.start]

variable (hm : m.Coherent)
include hm

/-- The other has all of its segment as region, with the same text. -/
theorem regionText_eq : m'.regionText = m.regionText := by
  have hslice := Text.slice_append [] m.regionText []
  rw [regionText, h.part, hm.text_region, h.region]
  simpa using hslice

/-- The other searches the text of its region too, which starts at nothing. -/
theorem haystack_right : m'.haystack = (m.regionText, 0) := by
  rw [haystack_eq (.inr (by rw [h.region])), h.regionText_eq hm, h.region]

/-- So the text ends where the region does. -/
theorem length_eq : base + byteLength m.regionText = m.region.stop := by
  rw [← h.start, byteLength_regionText hm]

/-- Behind the same match the next search starts at the same place. -/
theorem accept {f : Pattern.Match} {low high : Nat} (hf : f.Within m.regionText low high) :
    Mirrors base (m.accept (f.shift base)) (m'.accept f) := by
  obtain ⟨l, t, r, htext, hl, hstop⟩ := hm.region.cut
  have hregion : m.regionText = t := by
    rw [regionText, htext, ← hl, ← hstop, Text.slice_append]
  have hshift := Pattern.nextSearchStart_shift (l := l) (h := t) (r := r) (s := f.span)
    (by rw [← hregion]; exact hf.span.stop)
  refine { h with found := rfl, next := ?_ }
  simp only [Matcher.accept, h.part, hm.text_region, h.region]
  rw [hregion, ← h.start, ← hl, ← hstop, htext]
  exact hshift

/-- A result for the whole region is settled in the same way. -/
theorem settle (found : Option Pattern.Match) :
    InStep base (m.settle found) (m'.settle found) := by
  have hlen := h.length_eq hm
  refine ⟨rfl, { h with found := ?_, next := ?_ }⟩
  · cases found with
    | none => rfl
    | some f => simp [Matcher.settle, h.region, h.start]
  · cases found with
    | none => rfl
    | some f => simp [Matcher.settle, h.region, hlen]

/-! ## Calls -/

/-- Searches from the same place stay in step. -/
theorem search (start : Nat) : InStep base (m.search (base + start)) (m'.search start) := by
  have hlen := h.length_eq hm
  have hfind : m.pattern.findFrom m.regionText start = m'.pattern.findFrom m.regionText start := by
    rw [h.pattern]
  unfold Matcher.search
  rw [h.haystack_left, h.haystack_right hm, h.region, h.start]
  simp only [Nat.add_sub_cancel_left, Nat.sub_zero, hfind]
  by_cases hout : byteLength m.regionText < start
  · rw [if_pos (by omega), if_pos (by omega)]
    exact ⟨rfl, h.exhausted⟩
  · rw [if_neg (by omega), if_neg (by omega)]
    cases hf : m'.pattern.findFrom m.regionText start with
    | none => exact ⟨rfl, h.exhausted⟩
    | some f =>
      have haccept := h.accept hm (Pattern.findFrom_within hf)
      simp only [Matcher.accept, h.region] at haccept
      exact ⟨rfl, by simpa only [Pattern.Match.shift_zero] using haccept⟩

/-- Searches for the next match stay in step. -/
theorem find : InStep base m.find m'.find := by
  have hnext := h.next
  cases hn : m'.nextStart with
  | none =>
    rw [hn] at hnext
    rw [find_of_nextStart_eq_none hnext, find_of_nextStart_eq_none hn]
    exact ⟨rfl, h.forget⟩
  | some start =>
    rw [hn] at hnext
    rw [find_of_nextStart_eq_some hnext, find_of_nextStart_eq_some hn]
    exact h.search hm start

/-- Looks at the start of the region stay in step. -/
theorem lookingAt : InStep base m.lookingAt m'.lookingAt := by
  have hlook : ∀ m : Matcher, m.lookingAt =
      if (m.search m.region.start).1 = true ∧
          (m.search m.region.start).2.found.map (·.span.start) = some m.region.start
      then (true, (m.search m.region.start).2) else (false, { m with found := none }) :=
    fun _ => rfl
  obtain ⟨hanswer, hstate⟩ := h.search hm 0
  rw [Nat.add_zero] at hanswer hstate
  -- A match starts where the region does in the one if it starts at zero in the other.
  have hhere : (m.search base).2.found.map (·.span.start) = some base ↔
      (m'.search 0).2.found.map (·.span.start) = some 0 := by
    rw [hstate.found]
    cases (m'.search 0).2.found with
    | none => simp
    | some f => simp [Pattern.Match.shift, Span.shift]
  rw [hlook m, hlook m', h.region, h.start, hanswer]
  simp only [hhere]
  split_ifs
  · exact ⟨rfl, hstate⟩
  · exact ⟨rfl, h.region ▸ h.start ▸ h.forget⟩

/-- The pattern for whole texts may have been needed by one of the two only, but what it is read
from is the same. -/
theorem matchesRegion (hm' : m'.Coherent) :
    (∃ e, m.matchesRegion = .error e ∧ m'.matchesRegion = .error e) ∨
      ∃ r r', m.matchesRegion = .ok r ∧ m'.matchesRegion = .ok r' ∧ InStep base r r' := by
  have htext : Text.slice m.segment.text m.region.start m.region.stop = m.regionText := rfl
  have htext' : Text.slice m'.segment.text m'.region.start m'.region.stop = m.regionText :=
    h.regionText_eq hm
  have hfind : m.pattern.findFrom m.regionText 0 = m'.pattern.findFrom m.regionText 0 := by
    rw [h.pattern]
  have hread : Pattern.compile {} m.pattern.wholeSource =
      Pattern.compile {} m'.pattern.wholeSource := by
    rw [h.pattern]
  unfold Matcher.matchesRegion
  simp only [htext, htext', hfind, hm.wholePattern_eq, hm'.wholePattern_eq, hread]
  cases m'.pattern.findFrom m.regionText 0 with
  | none => exact .inr ⟨_, _, rfl, rfl, h.settle hm none⟩
  | some f =>
    simp only
    split_ifs
    · exact .inr ⟨_, _, rfl, rfl, h.settle hm (some f)⟩
    · cases hq : Pattern.compile {} m'.pattern.wholeSource with
      | error e => exact .inl ⟨e, rfl, rfl⟩
      | ok q =>
        have hkept := keepWhole_coherent hm (hread.trans hq)
        exact .inr ⟨_, _, rfl, rfl, (h.keep (some q) (some q)).settle hkept _⟩
    · exact .inr ⟨_, _, rfl, rfl, h.settle hm none⟩

/-- A call that leaves the region as it is answers the same, and the one matcher still mirrors the
other. -/
theorem perform (hm' : m'.Coherent) {op : Op} (hop : op.keepsRegion = true) :
    InStep base (m.perform op) (m'.perform op) := by
  cases op with
  | find =>
    obtain ⟨hanswer, hstate⟩ := h.find hm
    exact ⟨congrArg Answer.found hanswer, hstate⟩
  | lookingAt =>
    obtain ⟨hanswer, hstate⟩ := h.lookingAt hm
    exact ⟨congrArg Answer.found hanswer, hstate⟩
  | matchesRegion =>
    simp only [Matcher.perform]
    rcases h.matchesRegion hm hm' with ⟨e, he, he'⟩ | ⟨r, r', hr, hr', hanswer, hstate⟩
    · rw [he, he']
      exact ⟨rfl, h⟩
    · rw [hr, hr']
      exact ⟨congrArg Answer.found hanswer, hstate⟩
  | usePattern p => exact ⟨rfl, { h with pattern := rfl, found := rfl }⟩
  | findFrom _ | confine _ _ | reset | useBounds _ => exact Bool.noConfusion hop

/-- So it is after any such calls. -/
theorem run (hm' : m'.Coherent) {ops : List Op} (hops : ∀ op ∈ ops, op.keepsRegion = true) :
    Mirrors base (m.run ops) (m'.run ops) := by
  induction ops generalizing m m' with
  | nil => exact h
  | cons op ops ih =>
    have hstep := h.perform hm hm' (hops op List.mem_cons_self)
    exact ih hstep.state (perform_coherent hm op) (perform_coherent hm' op)
      fun op' hop' => hops op' (List.mem_cons_of_mem op hop')

end Mirrors

/-! ## What can be seen of it -/

/-- One matcher does what another does, and counts its offsets from `base` bytes ahead. -/
structure Echoes (base : Nat) (m m' : Matcher) : Prop where
  /-- A call that leaves the region as it is answers the same. -/
  answer : ∀ op, op.keepsRegion = true → (m.perform op).1 = (m'.perform op).1
  /-- The same groups take part in the current match, at the same places. -/
  groupSpan : ∀ index, m.groupSpan? index = (m'.groupSpan? index).map (·.shift base)
  /-- As segments they are alike, if they are not empty. -/
  group : ∀ index g g', m.groupAt? index = some g → m'.groupAt? index = some g' →
    g.isEmpty = false → g.Alike g'

/-- Whatever is asked about current matches that mirror each other is answered alike, up to the
base. -/
theorem Mirrors.echoes {base : Nat} (h : Mirrors base m m') (hm : m.Coherent)
    (hm' : m'.Coherent) : Echoes base m m' := by
  have hspan : ∀ index, m.groupSpan? index = (m'.groupSpan? index).map (·.shift base) := by
    intro index
    unfold groupSpan?
    rw [h.found]
    cases m'.found with
    | none => rfl
    | some f => exact f.group?_shift base index
  refine ⟨fun op hop => (h.perform hm hm' hop).answer, hspan, ?_⟩
  intro index g g' hg hg' hne
  obtain ⟨span, hs, rfl⟩ := Option.map_eq_some_iff.mp hg'
  have hs' := hspan index
  rw [hs] at hs'
  rw [groupAt?, hs'] at hg
  obtain rfl := Option.some.inj hg
  obtain ⟨f, hf, hgroup⟩ := Option.bind_eq_some_iff.mp hs
  have hin := (hm'.found f hf).group hgroup
  rw [h.part] at hin ⊢
  have hlt : span.start < span.stop := by
    have hle := hin.le
    have hne' : ¬ (m.segment.startOffset + (base + span.start) =
        m.segment.startOffset + (base + span.stop)) := by
      simpa [Segment.isEmpty, Segment.derive, Segment.deriveAt, Span.shift] using hne
    omega
  have halike := Segment.derive_shift_alike hm.segment hm.region hin hlt
  rw [h.start] at halike ⊢
  exact halike

/-- Confined to a range of a segment under anchoring bounds, a matcher does what a new one does that
searches the range as a segment of its own, whatever searches there are and whatever patterns are
searched for. -/
theorem confine_echoes {d : Document} {P : Pattern → Prop} {s t : Segment}
    (hs : Segment.Reachable d s) (hm : Reachable P s m) {start stop : Nat}
    (ht : s.substring start stop = .ok t) :
    ∃ m', (m.useBounds .anchoring).confine start stop = .ok m' ∧
      ∀ ops, (∀ op ∈ ops, op.keepsRegion = true) →
        Echoes start (m'.run ops) ((t.matcher m.pattern).run ops) := by
  obtain ⟨hplaced, -⟩ := hs.wellPlaced
  obtain ⟨hcoherent, rfl, -⟩ := hm.coherent hplaced
  obtain ⟨hin, rfl⟩ := Segment.substring_eq_ok_iff.mp ht
  have hcheck := Segment.checkRange_eq_ok_iff.mpr hin
  have hconfine : (m.useBounds .anchoring).confine start stop =
      .ok { m with bounds := .anchoring, region := ⟨start, stop⟩, found := none
                   nextStart := some start } := by
    simp only [confine, useBounds, hcheck]
    rfl
  have hconfined := confine_coherent (useBounds_coherent hcoherent .anchoring) hconfine
  have hpart := (Segment.isCut_derive hin).wellPlaced hplaced
  have hlen : (m.segment.derive start stop).length =
      byteLength (Text.slice m.segment.text start stop) := by
    rw [hpart.length_eq]
    exact congrArg byteLength hconfined.text_region
  -- Both have just been made, and have no match.
  refine ⟨_, hconfine, fun ops hops => ?_⟩
  have hmirrors : Mirrors start { m with
      bounds := .anchoring, region := ⟨start, stop⟩, found := none, nextStart := some start }
      ((m.segment.derive start stop).matcher m.pattern) :=
    ⟨rfl, rfl, rfl, congrArg (Span.mk 0) hlen, rfl, rfl, rfl⟩
  have hnew := new_coherent hpart m.pattern
  exact (hmirrors.run hconfined hnew hops).echoes (run_coherent hconfined ops)
    (run_coherent hnew ops)

/-- A word behind a blank is found at the start of its region, as it is at the start of a text. -/
theorem confine_echoes_second_word :
    ((Segment.ofText "a bc".toList [] ⟨0, 0⟩).matcher Token.word).confine 2 4 =
        .ok ⟨.ofText "a bc".toList [] ⟨0, 0⟩, Token.word, none, ⟨2, 4⟩, .anchoring, none, some 2⟩ ∧
      Echoes 2
        (run ⟨.ofText "a bc".toList [] ⟨0, 0⟩, Token.word, none, ⟨2, 4⟩, .anchoring, none, some 2⟩
          [.find])
        (run (((Segment.ofText "a bc".toList [] ⟨0, 0⟩).derive 2 4).matcher Token.word)
          [.find]) := by
  have hs : Segment.Reachable ⟨"a bc".toList, [], ⟨0, 0⟩⟩ (.ofText "a bc".toList [] ⟨0, 0⟩) := .root
  have hm : Reachable (fun _ => True) (.ofText "a bc".toList [] ⟨0, 0⟩)
      ((Segment.ofText "a bc".toList [] ⟨0, 0⟩).matcher Token.word) := .new trivial
  have ht : (Segment.ofText "a bc".toList [] ⟨0, 0⟩).substring 2 4 = .ok _ := rfl
  obtain ⟨m', hm', hechoes⟩ := confine_echoes hs hm ht
  obtain rfl := Except.ok.inj hm'
  exact ⟨hm', hechoes [.find] (by simp [Op.keepsRegion])⟩

end Matcher

end SourceText
