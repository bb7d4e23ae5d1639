import SourceText.Proofs.Reachable

/-!
# Bounds, and what matches a whole region

`matchesRegion` tries the pattern on the text of the region alone, whatever the bounds, while
`lookingAt` tries it on the text that the bounds show. Where the two texts are one, because the
edges are edges of the text or nothing is before the region, the two calls agree
(`agrees_of_haystack_eq`).

Anywhere else they do not, for every region. `Pattern.wholeText` begins with the start of the text
and then takes all of it: the text of a region alone is always covered by it
(`findFrom_wholeText_zero`), and in a text that has something before the place where the search
starts it is never found (`findFrom_wholeText_behind`).
-/

namespace SourceText

open Text (byteLength isBoundary)

namespace Pattern

/-- A text reads as the pattern under these flags. -/
def ReadWith (flags : Flags) (p : Pattern) : Prop := ∃ source, compile flags source = .ok p

/-- A text reads as the pattern under some flags. -/
def IsRead (p : Pattern) : Prop := ∃ flags, p.ReadWith flags

/-! ## A pattern that needs the start of the text -/

/-- The pattern `(?s)\A.*`: all of a text, from its start on. -/
def wholeText : Pattern where
  source := "(?s)\\A.*".toList
  node := .seq (.assertion .textStart) (.rep (.set .full) 0 none true)

/-- It is a pattern that can be read. -/
theorem isRead_wholeText : wholeText.IsRead := ⟨{}, "(?s)\\A.*".toList, rfl⟩

/-- The loop over any character, with which the code of `wholeText` ends. -/
def anyChars : Code := .loop 0 (.set .full) true

/-- The full set has every character. -/
theorem mem_full (c : Char) : CharSet.full.mem c = true := by
  simp [CharSet.mem, CharSet.full, CharSet.holds, CharSet.toNat_le c]

/-- At any place the loop goes on with the next character, or the match ends. -/
theorem gather_anyChars (place : Place) (best : Match) (t : Trace) :
    Front.gather place wholeText.code (some best) [([anyChars], t)] =
      { visited := Visited.insert ⟨0⟩ 0, threads := [⟨.full, [anyChars], t⟩]
        found := some (t.finish place.offset) } := rfl

/-- At the start of a search one way begins. -/
theorem gather_none (place : Place) (code : Code) :
    Front.gather place code none [] = reachAll place [code] (.begin place.offset) {} := rfl

/-- Once the loop is under way, it takes all that is left. -/
theorem scan_anyChars (t : Trace) (best : Match) (before : Option Char) (offset : Nat)
    (rest : Text) :
    scan wholeText.code [([anyChars], t)] (some best) before offset rest =
      some (t.finish (offset + byteLength rest)) := by
  induction rest generalizing best before offset with
  | nil =>
    rw [scan, gather_anyChars]
    rfl
  | cons c rest ih =>
    have hgoOn := ih (t.finish offset) (some c) (offset + c.utf8Size)
    simp only [scan, gather_anyChars, Front.advance, List.foldl_cons, List.foldl_nil, mem_full,
      if_true, Option.some_or, List.isEmpty_cons, Bool.and_false, Bool.false_eq_true, if_false]
    rw [hgoOn, Text.byteLength_cons, Nat.add_assoc]

/-- From its start the whole of a text is a match. -/
theorem findFrom_wholeText_zero (text : Text) :
    wholeText.findFrom text 0 = some ⟨⟨0, byteLength text⟩, []⟩ := by
  have hfind : wholeText.findFrom text 0 = scan wholeText.code [] none none 0 text := by
    cases text <;> rfl
  rw [hfind]
  cases text with
  | nil => rfl
  | cons c rest =>
    -- At the start of the text the assertion holds, and the loop is under way from there on.
    have hgoOn := scan_anyChars (.begin 0) ((Trace.begin 0).finish 0) (some c) (0 + c.utf8Size) rest
    have hstep : scan wholeText.code [] none none 0 (c :: rest) =
        scan wholeText.code [([anyChars], .begin 0)] (some ((Trace.begin 0).finish 0)) (some c)
          (0 + c.utf8Size) rest := by
      have hfront : reachAll ⟨none, some c, 0⟩ [wholeText.code] (.begin 0) {} =
          { visited := Visited.insert ⟨0⟩ 0, threads := [⟨.full, [anyChars], .begin 0⟩]
            found := some ((Trace.begin 0).finish 0) } := rfl
      simp only [scan, gather_none, hfront, Front.advance, List.foldl_cons, List.foldl_nil,
        mem_full, if_true, Option.some_or, List.isEmpty_cons, Bool.and_false, Bool.false_eq_true,
        if_false]
    rw [hstep, hgoOn, Nat.zero_add]
    rfl

/-- Behind a character no match begins. -/
theorem scan_wholeText_behind (a : Char) (offset : Nat) (rest : Text) :
    scan wholeText.code [] none (some a) offset rest = none := by
  induction rest generalizing a offset with
  | nil => rfl
  | cons c rest ih => exact ih c (offset + c.utf8Size)

/-- Where something is before the place where the search starts, there is no match. -/
theorem findFrom_wholeText_behind {l r : Text} (hl : l ≠ []) :
    wholeText.findFrom (l ++ r) (byteLength l) = none := by
  rw [findFrom, Text.drop?_append, Text.charBefore?_append, List.getLast?_eq_some_getLast hl]
  exact scan_wholeText_behind _ _ _

end Pattern

namespace Matcher

variable {m : Matcher}

/-! ## Agreement -/

/-- The calls that ask about the whole region and about its start agree: where the whole region
matches a match starts with it, and where the match that starts with it is as long as it is, the
whole region matches. -/
def Agrees (m : Matcher) : Prop :=
  (∀ m', m.matchesRegion = .ok (true, m') → m.lookingAt.1 = true) ∧
    (m.lookingAt.1 = true → m.lookingAt.2.stopOf? 0 = some m.region.stop →
      ∃ m', m.matchesRegion = .ok (true, m'))

/-- Where the bounds show the text of the region alone, the calls agree. -/
theorem agrees_of_haystack_eq (hm : m.Coherent) (h : m.haystack = (m.regionText, m.region.start)) :
    m.Agrees := by
  have hlen := byteLength_regionText hm
  constructor
  · intro m' hmatches
    -- Whichever pattern decided, the preferred match starts with the region.
    obtain ⟨f, hf, hstart⟩ :
        ∃ f, m.pattern.findFrom m.regionText 0 = some f ∧ f.span.start = 0 := by
      rcases m.matchesRegion_cases with ⟨found, hfound, heq⟩ | ⟨f, hf, hstart, -⟩
      · rw [hmatches] at heq
        have hsome : true = found.isSome := congrArg Prod.fst (Except.ok.inj heq)
        obtain ⟨f, hf⟩ := Option.isSome_iff_exists.mp hsome.symm
        obtain ⟨hfind, hspan⟩ := hfound f hf
        exact ⟨f, hfind, by rw [hspan]⟩
      · exact ⟨f, hf, hstart⟩
    have hlook := lookingAt_eq_true (f := f) hm.region.le (by rw [h, Nat.sub_self]; exact hf)
      (by rw [h]; simp [Pattern.Match.shift, Span.shift, hstart])
    rw [hlook]
  · -- A match that starts with the region and ends with it is all of its text.
    intro htrue hstop
    rcases m.lookingAt_cases with hlook | ⟨f, hf, hstart, hlook⟩
    · rw [hlook] at htrue
      exact Bool.noConfusion htrue
    · rw [h, Nat.sub_self] at hf
      rw [h] at hstart hlook
      rw [hlook] at hstop
      simp only [stopOf?, groupSpan?, accept, Pattern.Match.group?, Option.bind_some, if_true,
        Option.map_some, Option.some.injEq] at hstop
      simp only [Pattern.Match.shift, Span.shift] at hstart hstop
      have hspan : f.span = ⟨0, byteLength m.regionText⟩ := by
        have h0 : f.span.start = 0 := by omega
        have h1 : f.span.stop = byteLength m.regionText := by omega
        rw [← h0, ← h1]
      exact ⟨(m.settle (some f)).2, matchesRegion_eq_ok hf hspan⟩

/-- In a region that has something before it, under bounds that show what is before it, the calls do
not agree about `Pattern.wholeText`. -/
theorem not_agrees_wholeText (hpattern : m.pattern = .wholeText) (hbounds : m.bounds = .transparent)
    (hr : m.region.Inside m.segment.text 0 m.segment.length) (hstart : m.region.start ≠ 0) :
    ¬ m.Agrees := by
  obtain ⟨l, h, r, htext, hl, hh⟩ := hr.cut
  have hne : l ≠ [] := by
    rintro rfl
    exact hstart hl.symm
  have hhay : m.haystack = (l ++ h, 0) := by
    have hslice := Text.slice_append [] (l ++ h) r
    simp only [List.nil_append, Text.byteLength_nil] at hslice
    rw [haystack, hbounds]
    simp only
    rw [htext, ← hh, hslice]
  rintro ⟨hmatches, -⟩
  -- The text of the region on its own is a match.
  have hwhole : m.matchesRegion = .ok (m.settle (some ⟨⟨0, byteLength m.regionText⟩, []⟩)) :=
    matchesRegion_eq_ok (by rw [hpattern, Pattern.findFrom_wholeText_zero]) rfl
  have htrue := hmatches _ hwhole
  -- Behind `l` there is none.
  rcases m.lookingAt_cases with hlook | ⟨f, hf, -, -⟩
  · rw [hlook] at htrue
    exact Bool.noConfusion htrue
  · rw [hhay, Nat.sub_zero, ← hl, hpattern, Pattern.findFrom_wholeText_behind hne] at hf
    cases hf

/-- In a region of a segment, under bounds of one kind, the calls agree for all patterns and after
all calls if and only if the bounds anchor or nothing is before the region. -/
theorem agrees_iff {d : Document} {s : Segment} (hs : Segment.Reachable d s) {region : Span}
    (hr : region.Inside s.text 0 s.length) (bounds : Bounds) :
    (∀ m, Reachable Pattern.IsRead s m → m.region = region → m.bounds = bounds → m.Agrees) ↔
      bounds = .anchoring ∨ region.start = 0 := by
  obtain ⟨hplaced, -⟩ := hs.wellPlaced
  constructor
  · intro h
    cases bounds with
    | anchoring => exact .inl rfl
    | transparent =>
      -- Otherwise the matcher for `Pattern.wholeText` that is confined there would not agree.
      right
      refine Decidable.byContradiction fun hstart => ?_
      have hm := reachable_confined Pattern.isRead_wholeText hr .transparent
      exact not_agrees_wholeText rfl rfl hr hstart (h _ hm rfl rfl)
  · rintro h m hm rfl rfl
    exact agrees_of_haystack_eq (hm.coherent hplaced).1 (haystack_eq h)

/-- Under anchoring bounds the calls agree about the words in the second half of `ab`. -/
theorem agrees_word_second_half :
    ∃ m, ((Segment.ofText "ab".toList [] ⟨0, 0⟩).matcher Token.word).confine 1 2 = .ok m ∧
      m.Agrees := by
  have hread : Pattern.IsRead Token.word := ⟨{}, _, Token.compile_word⟩
  have hr : (⟨1, 2⟩ : Span).Inside (Segment.ofText "ab".toList [] ⟨0, 0⟩).text 0 2 :=
    ⟨by decide, by decide, by decide, by decide, by decide⟩
  exact ⟨_, rfl, (agrees_iff .root hr .anchoring).mpr (.inl rfl) _
    (reachable_confined hread hr .anchoring) rfl rfl⟩

/-- Under transparent bounds they do not: `^b` matches the second half of `ab` as a whole, and no
match starts with it. -/
theorem not_agrees_lineStart :
    ∃ m, Reachable Pattern.IsRead (.ofText "ab".toList [] ⟨0, 0⟩) m ∧ m.region = ⟨1, 2⟩ ∧
      m.bounds = .transparent ∧ m.matchesRegion.map Prod.fst = .ok true ∧
      m.lookingAt.1 = false := by
  have hread : Pattern.IsRead ⟨"^b".toList, .seq (.assertion .textStart) (.literal ['b'])⟩ :=
    ⟨{}, "^b".toList, rfl⟩
  have hr : (⟨1, 2⟩ : Span).Inside (Segment.ofText "ab".toList [] ⟨0, 0⟩).text 0 2 :=
    ⟨by decide, by decide, by decide, by decide, by decide⟩
  exact ⟨_, reachable_confined hread hr .transparent, rfl, rfl, by rfl, by rfl⟩

end Matcher

end SourceText
