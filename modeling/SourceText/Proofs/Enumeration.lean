import SourceText.Proofs.Leftmost
import SourceText.Proofs.Reachable

/-!
# One match after the other

A search finds the leftmost match from where it stands, in the text that the matcher sees, or there
is none (`search_leftmost`). After a match the search stands at its end, or one character later if
the match is empty (`Span.after`), so it has gone on by at least one character, or has come to the
end of the region. What happens between two searches does not move it (`Op.Continues.keeps`).

`Enumerates` says what this makes of the searches after a start: each finds the leftmost match from
the place that the one before has left, these places increase, and after the first search that finds
nothing there is nothing more (`enumerates_outcomes`). So there is at most one match more than there
are characters (`Enumerates.length_le`), and a search of a whole segment finds what a split of it
uses as separators (`spans_new_eq`).
-/

namespace SourceText

open Text (byteLength isBoundary)

/-- The offset where a search goes on behind a match: its end, or one character later if it is
empty. Behind an empty match at the end of the text there is none. -/
def Span.after (text : Text) (s : Span) : Option Nat :=
  if s.isEmpty then (Text.charAt? text s.stop).map (s.stop + ·.utf8Size) else some s.stop

/-- A span that is moved by nothing stays where it is. -/
@[simp] theorem Span.shift_zero (s : Span) : s.shift 0 = s := by
  simp [Span.shift]

namespace Pattern

/-- Where no search is to start, no matches are found. -/
theorem matchesFrom_none (p : Pattern) (text : Text) (n : Nat) :
    p.matchesFrom text n none = [] := by
  cases n <;> rfl

/-- Fewer searches find the first of the matches that more of them find. -/
theorem take_matchesFrom (p : Pattern) (text : Text) (n k : Nat) (start : Option Nat) :
    (p.matchesFrom text (n + k) start).take n = p.matchesFrom text n start := by
  induction n generalizing start with
  | zero =>
    rw [List.take_zero]
    unfold matchesFrom
    rfl
  | succ n ih =>
    cases start with
    | none => simp [matchesFrom_none]
    | some offset =>
      rw [Nat.add_right_comm, matchesFrom, matchesFrom]
      cases p.findFrom text offset with
      | none => rfl
      | some m => simp only [List.take_succ_cons, ih]

/-- The next search starts there, unless that is past the limit. -/
theorem nextSearchStart_eq_filter {text : Text} {s : Span} {limit : Nat} (hs : s.stop ≤ limit) :
    nextSearchStart text s limit = (s.after text).filter (· ≤ limit) := by
  unfold nextSearchStart Span.after
  split_ifs
  · rfl
  · rw [Option.filter_some, if_pos (decide_eq_true hs)]

end Pattern

namespace Matcher

variable {m : Matcher}

/-! ## One search -/

/-- The pattern matches a span of the segment, in the text that the matcher sees. -/
def MatchesAt (m : Matcher) (s : Span) : Prop :=
  ∃ t, m.pattern.Matches m.haystack.1 t ∧ s = t.shift m.haystack.2

/-- The leftmost match from an offset on. -/
structure Leftmost (m : Matcher) (low : Nat) (s : Span) : Prop where
  /-- It is a match. -/
  matchesAt : m.MatchesAt s
  /-- It starts at the offset or behind it. -/
  low_le : low ≤ s.start
  /-- No other of these starts before it. -/
  le : ∀ t, m.MatchesAt t → low ≤ t.start → s.start ≤ t.start
  /-- Of those that start where it does, it is the one that the pattern prefers. -/
  preferred : ∃ f, m.pattern.findFrom m.haystack.1 (low - m.haystack.2) = some f ∧
    s = f.span.shift m.haystack.2

/-- A search from a boundary of the region finds the leftmost match from there, or there is none. -/
theorem search_leftmost (hm : m.Coherent) {n : Nat} (hstart : m.region.start ≤ n)
    (hstop : n ≤ m.region.stop) (hn : isBoundary m.segment.text n = true) :
    (∃ f, m.Leftmost n f.span ∧ f.Within m.segment.text n m.region.stop ∧
        m.search n = (true, m.accept f)) ∨
      (∀ s, m.MatchesAt s → s.start < n) ∧ m.search n = (false, m.exhausted) := by
  obtain ⟨l, h, r, htext, hhay, hle, hend, -⟩ := haystack_cut hm.region
  -- Seen from the start of what the matcher sees, the search starts at a boundary too.
  have hb : isBoundary h (n - byteLength l) = true := by
    rw [htext] at hn
    exact Text.isBoundary_of_slice hn (by omega) (by omega)
  have hlow : ∀ t : Span, n ≤ (t.shift (byteLength l)).start ↔ n - byteLength l ≤ t.start := by
    intro t
    simp only [Span.shift]
    omega
  unfold search
  rw [if_neg (by omega)]
  simp only
  cases hf : m.pattern.findFrom m.haystack.1 (n - m.haystack.2) with
  | some f =>
    left
    refine ⟨f.shift m.haystack.2, ?_, within_of_findFrom hm hstart hf, rfl⟩
    refine ⟨⟨f.span, Pattern.findFrom_matches hf, rfl⟩, ?_, ?_, ⟨f, hf, rfl⟩⟩
    · exact (within_of_findFrom hm hstart hf).span.low_le
    · rintro _ ⟨t, ht, rfl⟩ hnt
      rw [hhay] at hf ht hnt ⊢
      exact Nat.add_le_add_left (Pattern.findFrom_le hf ht ((hlow t).mp hnt)) _
  | none =>
    right
    refine ⟨?_, rfl⟩
    rintro _ ⟨t, ht, rfl⟩
    rw [hhay] at hf ht ⊢
    refine Nat.lt_of_not_le fun hnt => ?_
    obtain ⟨f, hf', -⟩ := Pattern.exists_findFrom hb ht ((hlow t).mp hnt)
    rw [hf'] at hf
    cases hf

/-! ## Between the searches -/

/-- A call after which the matches go on where they were: a search for the next one, another pattern
or other bounds, a look at the start of the region that finds nothing there, and a call that is
refused. -/
def Op.Continues (m : Matcher) : Op → Prop
  | .find | .usePattern _ | .useBounds _ => True
  | .lookingAt => m.lookingAt.1 = false
  | .confine start stop => ∃ e, m.confine start stop = .error e
  | .matchesRegion => ∃ e, m.matchesRegion = .error e
  | .findFrom _ | .reset => False

/-- A call after which there may be matches again. -/
def Op.Revives (m : Matcher) : Op → Prop
  | .reset | .findFrom _ => True
  | .confine start stop => ∃ m', m.confine start stop = .ok m'
  | .lookingAt => m.lookingAt.1 = true
  | .matchesRegion => ∃ m', m.matchesRegion = .ok (true, m')
  | .find | .usePattern _ | .useBounds _ => False

/-- Each of some calls is of a kind, at the matcher that it is made on. -/
def Along (kind : Matcher → Op → Prop) (m : Matcher) : List Op → Prop
  | [] => True
  | op :: ops => kind m op ∧ Along kind (m.perform op).2 ops

/-- Calls between the searches change neither the region nor where the next search starts. -/
theorem Op.Continues.keeps {op : Op} (h : op.Continues m) (hop : op ≠ .find) :
    (m.perform op).2.region = m.region ∧ (m.perform op).2.nextStart = m.nextStart := by
  cases op with
  | find => exact absurd rfl hop
  | usePattern p => exact ⟨rfl, rfl⟩
  | useBounds b => exact ⟨rfl, rfl⟩
  | lookingAt =>
    have hfalse : m.lookingAt.1 = false := h
    rcases m.lookingAt_cases with hlook | ⟨f, -, -, hlook⟩
    · simp only [perform, hlook, and_self]
    · rw [hlook] at hfalse
      cases hfalse
  | confine start stop =>
    obtain ⟨e, he⟩ := h
    simp only [perform, he, and_self]
  | matchesRegion =>
    obtain ⟨e, he⟩ := h
    simp only [perform, he, and_self]
  | findFrom start => exact False.elim h
  | reset => exact False.elim h

/-- A search that has no place to start from finds nothing. -/
theorem find_of_nextStart_eq_none (h : m.nextStart = none) :
    m.find = (false, { m with found := none }) := by
  unfold find
  rw [h]

/-- Any other search starts from its place. -/
theorem find_of_nextStart_eq_some {n : Nat} (h : m.nextStart = some n) : m.find = m.search n := by
  unfold find
  rw [h]

/-- If the whole region is asked for without an error, the matcher settles on what has been found or
on nothing. -/
theorem exists_settle_of_matchesRegion {r : Bool × Matcher} (h : m.matchesRegion = .ok r) :
    ∃ m' found, r = settle m' found := by
  rcases m.matchesRegion_cases with ⟨found, -, heq⟩ | ⟨f, -, -, heq⟩
  · rw [heq] at h
    exact ⟨m, found, (Except.ok.inj h).symm⟩
  · rw [heq] at h
    cases hw : m.wholePattern with
    | error e => simp [hw, Except.map] at h
    | ok pair =>
      rw [hw] at h
      exact ⟨pair.2, pair.1.findFrom m.regionText 0, (Except.ok.inj h).symm⟩

/-- Unless it starts over, a matcher whose matches have run out stays so. -/
theorem nextStart_perform_eq_none {op : Op} (h : m.nextStart = none) (hop : ¬ op.Revives m) :
    (m.perform op).2.nextStart = none := by
  cases op with
  | find =>
    simp only [perform, find_of_nextStart_eq_none h]
    exact h
  | usePattern p => exact h
  | useBounds b => exact h
  | lookingAt =>
    rcases m.lookingAt_cases with hlook | ⟨f, -, -, hlook⟩
    · simp only [perform, hlook]
      exact h
    · exact absurd (congrArg Prod.fst hlook) hop
  | confine start stop =>
    simp only [perform]
    cases hc : m.confine start stop with
    | error e => exact h
    | ok m' => exact absurd ⟨m', hc⟩ hop
  | matchesRegion =>
    simp only [perform]
    cases hr : m.matchesRegion with
    | error e => exact h
    | ok r =>
      -- That the region does not match leaves no place to search from.
      obtain ⟨m', found, rfl⟩ := exists_settle_of_matchesRegion hr
      cases found with
      | none => rfl
      | some f => exact absurd ⟨_, hr⟩ hop
  | findFrom start => exact absurd trivial hop
  | reset => exact absurd trivial hop

/-- When the matches have run out they stay so, unless a call makes the matcher start again or
settle on a match. -/
theorem nextStart_run_eq_none {ops : List Op} (h : m.nextStart = none)
    (hops : Along (fun m op => ¬ op.Revives m) m ops) : (m.run ops).nextStart = none := by
  induction ops generalizing m with
  | nil => exact h
  | cons op ops ih => exact ih (nextStart_perform_eq_none h hops.1) hops.2

/-- A search that finds nothing leaves no place to search from. -/
theorem nextStart_of_find_eq_false (h : m.find.1 = false) : m.find.2.nextStart = none := by
  cases hn : m.nextStart with
  | none =>
    rw [find_of_nextStart_eq_none hn]
    exact hn
  | some start =>
    rw [find_of_nextStart_eq_some hn] at h ⊢
    rcases m.search_cases start with hs | ⟨f, -, -, -, hs⟩
    · rw [hs]
      rfl
    · rw [hs] at h
      cases h

/-! ## All searches after a start -/

/-- A search for the next match, and what it reports. -/
structure Outcome where
  /-- The matcher before the search. -/
  matcher : Matcher
  /-- The match, if one has been found. -/
  found : Option Span

/-- What the searches among some calls report. -/
def outcomes (m : Matcher) : List Op → List Outcome
  | [] => []
  | op :: ops =>
    match op with
    | .find => ⟨m, if m.find.1 then m.find.2.groupSpan? 0 else none⟩ :: outcomes m.find.2 ops
    | _ => outcomes (m.perform op).2 ops

/-- The matches that they report. -/
def spans (m : Matcher) (ops : List Op) : List Span := (m.outcomes ops).filterMap Outcome.found

/-- The searches from a place on, which there may be none of. Each finds the leftmost match from its
place, in the region, and leaves a later place to the next one. After a search that finds nothing,
where there is no match to find, nothing more is found. -/
inductive Enumerates (text : Text) (region : Span) : Option Nat → List Outcome → Prop where
  /-- No search. -/
  | nil {place : Option Nat} : Enumerates text region place []
  /-- A search that finds a match. -/
  | hit {m : Matcher} {low : Nat} {s : Span} {rest : List Outcome} (hs : m.Leftmost low s)
    (hregion : s.Inside text region.start region.stop)
    (hlater : ∀ next, s.after text = some next → low < next)
    (hrest : Enumerates text region (s.after text) rest) :
    Enumerates text region (some low) (⟨m, some s⟩ :: rest)
  /-- A search that finds none. -/
  | miss {m : Matcher} {place : Option Nat} {rest : List Outcome}
    (hnone : ∀ low s, place = some low → m.MatchesAt s → s.start < low)
    (hrest : ∀ o ∈ rest, o.found = none) : Enumerates text region place (⟨m, none⟩ :: rest)

/-- Only searches have outcomes. -/
theorem outcomes_cons_of_ne {op : Op} (hop : op ≠ .find) (ops : List Op) :
    m.outcomes (op :: ops) = (m.perform op).2.outcomes ops := by
  cases op with
  | find => exact absurd rfl hop
  | usePattern | useBounds | lookingAt | confine | matchesRegion | findFrom | reset => rfl

/-- Calls that go on where the matches were revive none. -/
theorem Op.Continues.not_revives {op : Op} (h : op.Continues m) : ¬ op.Revives m := by
  cases op with
  | find => exact id
  | usePattern => exact id
  | useBounds => exact id
  | lookingAt =>
    have hfalse : m.lookingAt.1 = false := h
    intro htrue
    exact Bool.noConfusion (hfalse.symm.trans htrue)
  | confine start stop =>
    obtain ⟨e, he⟩ := h
    rintro ⟨m', hm'⟩
    cases he.symm.trans hm'
  | matchesRegion =>
    obtain ⟨e, he⟩ := h
    rintro ⟨m', hm'⟩
    cases he.symm.trans hm'
  | findFrom start => exact False.elim h
  | reset => exact False.elim h

/-- When the matches have run out, all searches find nothing. -/
theorem found_eq_none_of_nextStart {ops : List Op} (h : m.nextStart = none)
    (hops : Along Op.Continues m ops) : ∀ o ∈ m.outcomes ops, o.found = none := by
  induction ops generalizing m with
  | nil => simp [outcomes]
  | cons op ops ih =>
    obtain ⟨hop, hops⟩ := hops
    have hrest := ih (nextStart_perform_eq_none h hop.not_revives) hops
    by_cases hfind : op = .find
    · subst hfind
      refine List.forall_mem_cons.mpr ⟨?_, hrest⟩
      simp only [find_of_nextStart_eq_none h, Bool.false_eq_true, if_false]
    · rw [outcomes_cons_of_ne hfind]
      exact hrest

/-- A match in the text that the matcher sees does not reach past the region. -/
theorem MatchesAt.start_le (hm : m.Coherent) {s : Span} (hs : m.MatchesAt s) :
    s.start ≤ m.region.stop := by
  obtain ⟨l, h, r, -, hhay, -, hend, -⟩ := haystack_cut hm.region
  obtain ⟨t, ⟨l', m', r', htext, hstart, -⟩, rfl⟩ := hs
  rw [hhay] at htext ⊢
  rw [← hend, Text.byteLength_append]
  simp only [Span.shift, ← hstart] at htext ⊢
  have hle : byteLength l' ≤ byteLength h := by
    rw [htext, Text.byteLength_append, Text.byteLength_append]
    omega
  omega

/-- The offset behind a match is behind any offset that the match does not start before. -/
theorem lt_after {text : Text} {s : Span} {low next : Nat} (hlow : low ≤ s.start)
    (hs : s.start ≤ s.stop) (h : s.after text = some next) : low < next := by
  unfold Span.after at h
  split_ifs at h with hempty
  · obtain ⟨c, -, rfl⟩ := Option.map_eq_some_iff.mp h
    have := c.utf8Size_pos
    omega
  · obtain rfl := Option.some.inj h
    have hne : s.start ≠ s.stop := by simpa [Span.isEmpty] using hempty
    omega

/-- The searches among some calls enumerate the matches from the place where the matcher stands, if
it has a next start unless that place is past the region. -/
theorem enumerates_outcomes {ops : List Op} (hm : m.Coherent) {place : Option Nat}
    (hplace : m.nextStart = place.filter (· ≤ m.region.stop)) (hops : Along Op.Continues m ops) :
    Enumerates m.segment.text m.region place (m.outcomes ops) := by
  induction ops generalizing m place with
  | nil => exact .nil
  | cons op ops ih =>
    obtain ⟨hop, hops⟩ := hops
    have hm' := perform_coherent hm op
    have hsegment := (m.perform_keeps op).1
    by_cases hfind : op = .find
    · subst hfind
      cases hn : m.nextStart with
      | none =>
        -- The place is past the region, or there is none.
        have hfalse := find_of_nextStart_eq_none hn
        have hrest := found_eq_none_of_nextStart (m := m.find.2) (by rw [hfalse]; exact hn) hops
        simp only [outcomes, hfalse, Bool.false_eq_true, if_false] at hrest ⊢
        refine .miss ?_ hrest
        rintro low s rfl hs
        have hpast : ¬ low ≤ m.region.stop := by
          rw [hn] at hplace
          simpa using hplace.symm
        have := hs.start_le hm
        omega
      | some n =>
        obtain ⟨rfl, hstop⟩ := Option.filter_eq_some_iff.mp (hplace.symm.trans hn)
        obtain ⟨hstart, hend, hb⟩ := hm.next n hn
        have hfind := find_of_nextStart_eq_some hn
        rcases search_leftmost hm hstart hend hb with ⟨f, hf, hwithin, hs⟩ | ⟨hnone, hs⟩
        · rw [hs] at hfind
          simp only [perform, hfind] at hm' hops
          simp only [outcomes, hfind, if_true]
          refine .hit hf (hwithin.span.mono hstart (Nat.le_refl _)) ?_ (ih hm' ?_ hops)
          · intro next hnext
            exact lt_after hf.low_le hwithin.span.le hnext
          · exact Pattern.nextSearchStart_eq_filter hwithin.span.le_high
        · rw [hs] at hfind
          simp only [perform, hfind] at hops
          simp only [outcomes, hfind, Bool.false_eq_true, if_false]
          refine .miss ?_ (found_eq_none_of_nextStart rfl hops)
          rintro low s ⟨⟩ hs
          exact hnone s hs
    · obtain ⟨hregion, hnext⟩ := hop.keeps hfind
      rw [outcomes_cons_of_ne hfind, ← hsegment, ← hregion]
      exact ih hm' (by rw [hnext, hregion, hplace]) hops

/-- A matcher that has started over stands at the start of its region. -/
theorem enumerates_of_start {ops : List Op} (hm : m.Coherent)
    (hstart : m.nextStart = some m.region.start) (hops : Along Op.Continues m ops) :
    Enumerates m.segment.text m.region (some m.region.start) (m.outcomes ops) := by
  refine enumerates_outcomes hm ?_ hops
  rw [hstart, Option.filter_some, if_pos (decide_eq_true hm.region.le)]

/-! ## How many matches there are -/

namespace Enumerates

variable {text : Text} {region : Span} {place : Option Nat} {outcomes : List Outcome}

/-- From a place past the region nothing is found. -/
theorem eq_nil_of_past (h : Enumerates text region place outcomes)
    (hpast : ∀ low, place = some low → region.stop < low) :
    outcomes.filterMap Outcome.found = [] := by
  cases h with
  | nil => rfl
  | hit hs hregion =>
    have hlow := hpast _ rfl
    have hle := hs.low_le
    have hstop := hregion.le_high
    have := hregion.le
    omega
  | miss _ hrest =>
    rw [List.filterMap_cons_none rfl, List.filterMap_eq_nil_iff]
    exact hrest

/-- From a place in the region on there is at most one match more than there are characters. -/
theorem length_le {l h r : Text} (he : Enumerates text region place outcomes)
    (hplace : place = some (byteLength l)) (htext : text = l ++ h ++ r)
    (hstop : byteLength (l ++ h) = region.stop) :
    (outcomes.filterMap Outcome.found).length ≤ h.length + 1 := by
  -- Each match takes at least one character from those that are left.
  induction he generalizing l h with
  | nil => simp
  | miss _ hrest =>
    rw [List.filterMap_cons_none rfl, List.filterMap_eq_nil_iff.mpr hrest]
    exact Nat.zero_le _
  | hit hs hregion hlater hrest ih =>
    rename_i m low s rest
    obtain rfl : low = byteLength l := Option.some.inj hplace
    change (s :: rest.filterMap Outcome.found).length ≤ h.length + 1
    rw [List.length_cons]
    by_cases hmore : ∃ next, s.after text = some next ∧ next ≤ region.stop
    · obtain ⟨next, hnext, hle⟩ := hmore
      have hnext' : Pattern.nextSearchStart text s region.stop = some next := by
        rw [Pattern.nextSearchStart_eq_filter hregion.le_high, hnext, Option.filter_some,
          if_pos (decide_eq_true hle)]
      obtain ⟨-, -, hb⟩ := Pattern.nextSearchStart_spec hregion.stop hregion.le_high hnext'
      obtain ⟨l', r', hcut, rfl⟩ := Text.isBoundary_iff.mp hb
      have hlt := hlater _ hnext
      -- The next place lies behind some more characters `x` of the region.
      have hfront : l ++ (h ++ r) = l' ++ r' := by rw [← List.append_assoc, ← htext, hcut]
      obtain ⟨x, rfl, -⟩ := Text.exists_middle hfront (Nat.le_of_lt hlt)
      obtain ⟨y, hy, -⟩ := Text.exists_middle (hcut.symm.trans htext) (by rw [hstop]; exact hle)
      rw [List.append_assoc, List.append_cancel_left_eq] at hy
      subst hy
      have hx : x ≠ [] := by
        rintro rfl
        simp at hlt
      have hlen := List.length_pos_iff.mpr hx
      have hrest := ih hnext (by rw [htext, List.append_assoc l x y])
        (by rw [List.append_assoc, hstop])
      rw [List.length_append]
      omega
    · have hnil := hrest.eq_nil_of_past (by
        intro low hlow
        refine Nat.lt_of_not_le fun hle => hmore ⟨low, hlow, hle⟩)
      rw [hnil]
      simp

end Enumerates

/-- From the start of its region a matcher finds at most one match more than the region has
characters. -/
theorem length_spans_le {ops : List Op} (hm : m.Coherent)
    (h : Enumerates m.segment.text m.region (some m.region.start) (m.outcomes ops)) :
    (m.spans ops).length ≤ m.regionText.length + 1 := by
  obtain ⟨l, h', r, htext, hl, hh⟩ := hm.region.cut
  have hregion : m.regionText = h' := by rw [regionText, htext, ← hl, ← hh, Text.slice_append]
  rw [hregion]
  exact h.length_le (by rw [hl]) htext hh

/-! ## A whole segment -/

/-- Searches alone are such calls. -/
theorem along_replicate_find (m : Matcher) (n : Nat) :
    Along Op.Continues m (List.replicate n .find) := by
  induction n generalizing m with
  | zero => trivial
  | succ n ih => exact ⟨trivial, ih _⟩

/-- Over the whole of a segment the matcher sees the text of the segment. -/
theorem haystack_of_whole (hm : m.Coherent) (hregion : m.region = ⟨0, m.segment.length⟩) :
    m.haystack = (m.segment.text, 0) := by
  have hslice := Text.slice_append [] m.segment.text []
  simp only [List.nil_append, List.append_nil, Text.byteLength_nil] at hslice
  rw [haystack_eq (.inr (by rw [hregion])), regionText, hregion, hm.segment.length_eq, hslice]

/-- Searches over a whole segment go on as those of a split do. -/
theorem spans_replicate_find_eq (hm : m.Coherent) (hregion : m.region = ⟨0, m.segment.length⟩)
    (n : Nat) :
    m.spans (List.replicate n .find) = m.pattern.matchesFrom m.segment.text n m.nextStart := by
  induction n generalizing m with
  | zero =>
    unfold Pattern.matchesFrom
    rfl
  | succ n ih =>
    cases hn : m.nextStart with
    | none =>
      have hnil := found_eq_none_of_nextStart hn (m.along_replicate_find (n + 1))
      rw [Pattern.matchesFrom_none, spans, List.filterMap_eq_nil_iff]
      exact hnil
    | some k =>
      obtain ⟨hstart, hstop, hb⟩ := hm.next k hn
      have hm' := perform_coherent hm .find
      have hfind := find_of_nextStart_eq_some hn
      have hhay := haystack_of_whole hm hregion
      rw [Pattern.matchesFrom, spans, List.replicate_succ, outcomes]
      rcases search_leftmost hm hstart hstop hb with ⟨f, hf, hwithin, hs⟩ | ⟨hnone, hs⟩
      · rw [hs] at hfind
        obtain ⟨g, hg, hspan⟩ := hf.preferred
        rw [hhay, Nat.sub_zero] at hg
        rw [hhay, Span.shift_zero] at hspan
        simp only [perform, hfind] at hm'
        have hrest := ih hm' hregion
        simp only [hfind, hg, if_true]
        change f.span :: (m.accept f).spans (List.replicate n .find) = g.span :: _
        rw [hrest, ← hspan, ← hm.segment.length_eq]
        simp only [accept, hregion]
      · rw [hs] at hfind
        -- What the pattern finds would be a match.
        have hnone' : m.pattern.findFrom m.segment.text k = none := by
          cases hg : m.pattern.findFrom m.segment.text k with
          | none => rfl
          | some g =>
            have hmatch : m.MatchesAt g.span := by
              refine ⟨g.span, ?_, ?_⟩
              · rw [hhay]
                exact Pattern.findFrom_matches hg
              · rw [hhay, Span.shift_zero]
            have hlt := hnone g.span hmatch
            have hle := (Pattern.findFrom_within hg).span.low_le
            omega
        simp only [hfind, hnone', Bool.false_eq_true, if_false]
        rw [List.filterMap_cons_none rfl, List.filterMap_eq_nil_iff]
        exact found_eq_none_of_nextStart rfl (along_replicate_find _ n)

/-- So all searches together find what a split uses as separators. -/
theorem spans_new_eq {s : Segment} (hs : s.WellPlaced) (p : Pattern) (n : Nat) :
    (s.matcher p).spans (List.replicate n .find) = (p.allMatches s.text).take n := by
  have hm : (s.matcher p).Coherent := new_coherent hs p
  have hspans := fun n => spans_replicate_find_eq hm rfl n
  have htext : (s.matcher p).regionText = s.text := by
    have hhay := haystack_of_whole hm rfl
    rw [haystack_eq (.inr rfl)] at hhay
    exact congrArg Prod.fst hhay
  -- There is at most one match more than there are characters, however many searches there are.
  have hlen : ∀ n, (p.matchesFrom s.text n (some 0)).length ≤ s.text.length + 1 := by
    intro n
    have hle := length_spans_le hm (enumerates_of_start hm rfl (along_replicate_find _ n))
    rw [hspans, htext] at hle
    exact hle
  have hn : (s.matcher p).spans (List.replicate n .find) = p.matchesFrom s.text n (some 0) :=
    hspans n
  rw [hn, Pattern.allMatches]
  rcases Nat.le_total n (s.text.length + 1) with hle | hle
  · obtain ⟨k, hk⟩ := Nat.exists_eq_add_of_le hle
    rw [hk, Pattern.take_matchesFrom]
  · obtain ⟨k, rfl⟩ := Nat.exists_eq_add_of_le hle
    have htake := Pattern.take_matchesFrom p s.text (s.text.length + 1) k (some 0)
    rw [List.take_of_length_le (hlen _)] at htake
    rw [htake, List.take_of_length_le (by rw [← htake]; exact Nat.le_trans (hlen _) (by omega))]

/-! ## All matchers over a segment -/

/-- The matcher has started over, in a region that was chosen or in the whole segment. -/
def Restarts (m m' : Matcher) : Prop :=
  m' = m.reset ∨ ∃ start stop, m.confine start stop = .ok m'

/-- After a start the next search begins where the region does. -/
theorem Restarts.nextStart_eq {m' : Matcher} (h : m.Restarts m') :
    m'.nextStart = some m'.region.start := by
  rcases h with rfl | ⟨start, stop, h⟩
  · rfl
  · unfold confine at h
    cases hc : m.segment.checkRange start stop with
    | error e => simp [hc, Except.map] at h
    | ok u =>
      rw [hc] at h
      obtain rfl := Except.ok.inj h
      rfl

/-- After a start the matcher is coherent, with the same segment. -/
theorem Restarts.coherent {m' : Matcher} (hm : m.Coherent) (h : m.Restarts m') :
    m'.Coherent ∧ m'.segment = m.segment := by
  rcases h with rfl | ⟨start, stop, h⟩
  · exact ⟨reset_coherent hm, rfl⟩
  · have hseg := (m.perform_keeps (.confine start stop)).1
    simp only [perform, h] at hseg
    exact ⟨confine_coherent hm h, hseg⟩

/-- The searches of a matcher that has started over enumerate the matches of the patterns that they
are for, each the leftmost from the place that the one before has left, and there is at most one
more of them than the region has characters. A matcher whose search has found nothing finds nothing
more until it starts over or a match is found in another way. The searches of a new matcher find
what a split by the pattern uses as separators. -/
theorem find_enumerates {d : Document} {s : Segment} (hs : Segment.Reachable d s) :
    (∀ m₀, Reachable (fun _ => True) s m₀ → ∀ m, m₀.Restarts m → ∀ ops,
      Along Op.Continues m ops →
        Enumerates s.text m.region (some m.region.start) (m.outcomes ops) ∧
          (m.spans ops).length ≤ m.regionText.length + 1) ∧
      (∀ m : Matcher, m.find.1 = false → ∀ ops,
        Along (fun m op => ¬ op.Revives m) m.find.2 ops → (m.find.2.run ops).find.1 = false) ∧
      ∀ p n, (s.matcher p).spans (List.replicate n .find) = (p.allMatches s.text).take n := by
  obtain ⟨hplaced, -⟩ := hs.wellPlaced
  refine ⟨?_, ?_, spans_new_eq hplaced⟩
  · intro m₀ hm₀ m hstart ops hops
    obtain ⟨hcoherent, hsegment, -⟩ := hm₀.coherent hplaced
    obtain ⟨hm, hsame⟩ := hstart.coherent hcoherent
    have henum := enumerates_of_start hm hstart.nextStart_eq hops
    have hlength := length_spans_le hm henum
    rw [hsame, hsegment] at henum
    exact ⟨henum, hlength⟩
  · intro m hfalse ops hops
    have hnone := nextStart_run_eq_none (nextStart_of_find_eq_false hfalse) hops
    rw [find_of_nextStart_eq_none hnone]

/-- The pattern `b*`: any number of that letter. -/
def runsOfB : Pattern := ⟨"b*".toList, .rep (.literal ['b']) 0 none true⟩

/-- A matcher for them over the text `abb`. -/
def overAbb : Matcher := (Segment.ofText "abb".toList [] ⟨0, 0⟩).matcher runsOfB

/-- They are found at the start, as the rest, and at the end. If another pattern comes between, it
goes on from the same place. -/
theorem find_enumerates_abb :
    overAbb.spans (List.replicate 4 .find) = [⟨0, 0⟩, ⟨1, 3⟩, ⟨3, 3⟩] ∧
      (overAbb.spans [.find, .usePattern ⟨['b'], .literal ['b']⟩, .find, .find] =
        [⟨0, 0⟩, ⟨1, 2⟩, ⟨2, 3⟩]) ∧
      Enumerates "abb".toList ⟨0, 3⟩ (some 0)
        (overAbb.outcomes [.find, .usePattern ⟨['b'], .literal ['b']⟩, .find, .find]) := by
  have hall := find_enumerates (.root (d := ⟨"abb".toList, [], ⟨0, 0⟩⟩))
  refine ⟨(hall.2.2 runsOfB 4).trans (by rfl), by rfl, ?_⟩
  have hnew : Reachable (fun _ => True) _ overAbb := .new trivial
  have henum := hall.1 overAbb hnew overAbb (.inl rfl)
    [.find, .usePattern ⟨['b'], .literal ['b']⟩, .find, .find]
    ⟨trivial, trivial, trivial, trivial, trivial⟩
  exact henum.1

end Matcher

end SourceText
