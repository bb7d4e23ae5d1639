import Mathlib.Data.List.Forall2
import SourceText.Proofs.Enumeration
import SourceText.Proofs.Literal
import SourceText.Proofs.Rows

/-!
# Splits lose nothing

The pieces of a split and the separators between them, by turns, are the text that is split
(`Segment.TiledBy`). Separators are in order, so each of them leaves a piece in front of it and has
the rest behind it (`Split.tiles_between`, `Split.interleave_between`). Of the separators that there
are, those that a limit allows are used, from the first on (`Split.allows_used`). All kinds of
separators are in order, so this holds of a split by a pattern, of one by a text that is read as a
pattern or taken for a character, and of the lines. Only dropping the empty pieces at the end leaves
something out.
-/

namespace SourceText

open Text (byteLength isBoundary)

namespace Split

/-- Pieces and separators, by turns, lead from offset `start` to offset `stop`. A piece starts where
the separator before it stops, and stops where the one behind it starts. -/
def Tiles (stop : Nat) : (start : Nat) → (pieces separators : List Span) → Prop
  | start, [piece], [] => piece = ⟨start, stop⟩ ∧ start ≤ stop
  | start, piece :: pieces, separator :: separators =>
    (piece = ⟨start, separator.start⟩ ∧ start ≤ separator.start ∧
      separator.start ≤ separator.stop) ∧ Tiles stop separator.stop pieces separators
  | _, _, _ => False

/-- The texts of pieces and separators, by turns. -/
def interleave : (pieces separators : List Text) → Text
  | piece :: pieces, separator :: separators => piece ++ separator ++ interleave pieces separators
  | pieces, _ => pieces.flatten

/-- What is between separators in order tiles the text with them. -/
theorem tiles_between {text : Text} {start : Nat} {separators : List Span}
    (h : Span.InOrder text start separators) (hstart : start ≤ byteLength text) :
    Tiles (byteLength text) start (between start (byteLength text) separators) separators := by
  induction separators generalizing start with
  | nil => exact ⟨rfl, hstart⟩
  | cons separator rest ih =>
    obtain ⟨⟨hle, hspan, -, hstop⟩, hrest⟩ := h
    rw [between, Tiles]
    exact ⟨⟨rfl, hle, hspan⟩, ih hrest (Text.le_byteLength_of_isBoundary hstop)⟩

/-- The texts of what is between separators in order, and of the separators, are all that is behind
the offset where the first piece starts. -/
theorem interleave_between {text l r : Text} (htext : text = l ++ r) {separators : List Span}
    (h : Span.InOrder text (byteLength l) separators) :
    interleave
        ((between (byteLength l) (byteLength text) separators).map
          fun p => Text.slice text p.start p.stop)
        (separators.map fun p => Text.slice text p.start p.stop) = r := by
  induction separators generalizing l r with
  | nil =>
    have hslice := Text.slice_append l r []
    rw [List.append_nil, ← htext] at hslice
    simp [between, interleave, hslice]
  | cons separator rest ih =>
    obtain ⟨⟨hle, hspan, hstart, hstop⟩, hrest⟩ := h
    -- The text behind `l` is the piece `x`, the separator `y` and what is behind that.
    obtain ⟨l₁, r₁, htext₁, hl₁⟩ := Text.isBoundary_iff.mp hstart
    obtain ⟨l₂, r₂, htext₂, hl₂⟩ := Text.isBoundary_iff.mp hstop
    rw [← hl₁] at hle
    obtain ⟨x, rfl, hx⟩ := Text.exists_middle (htext.symm.trans htext₁) hle
    rw [← hl₁, ← hl₂] at hspan
    obtain ⟨y, rfl, hy⟩ := Text.exists_middle (htext₁.symm.trans htext₂) hspan
    have hpiece : Text.slice text (byteLength l) separator.start = x := by
      rw [htext₁, ← hl₁, Text.slice_append]
    have hseparator : Text.slice text separator.start separator.stop = y := by
      rw [htext₂, ← hl₁, ← hl₂, Text.slice_append]
    rw [← hl₂] at hrest
    have hbehind := ih htext₂ hrest
    rw [hl₂] at hbehind
    rw [between, List.map_cons, List.map_cons, interleave, hpiece, hseparator, hbehind, hx, hy,
      List.append_assoc]

end Split

/-- The first ones of the separators that there are, as many as the limit allows. -/
def SplitLimit.Allows (limit : SplitLimit) (separators used : List Span) : Prop :=
  used <+: separators ∧
    match limit with
    | .atMost n => used.length = min (n - 1) separators.length
    | .keepTrailing | .dropTrailing => used = separators

/-- A split uses what its limit allows of the separators that are not empty at the very start. -/
theorem Split.allows_used (limit : SplitLimit) (separators : List Span) :
    limit.Allows (separators.filter (· ≠ ⟨0, 0⟩)) (used limit separators) := by
  cases limit with
  | keepTrailing => exact ⟨List.prefix_refl _, rfl⟩
  | dropTrailing => exact ⟨List.prefix_refl _, rfl⟩
  | atMost n => exact ⟨List.take_prefix _ _, List.length_take⟩

namespace Segment

variable {s : Segment}

/-- The part of the segment at a span of its text. -/
structure LiesAt (s t : Segment) (span : Span) : Prop where
  /-- It is of the same document. -/
  document : t.document = s.document
  /-- It starts where the span does. -/
  startOffset : t.startOffset = s.startOffset + span.start
  /-- It stops where the span does. -/
  stopOffset : t.stopOffset = s.startOffset + span.stop

/-- A segment is at the span that covers its text. -/
theorem liesAt_self (hs : s.WellPlaced) : s.LiesAt s ⟨0, s.length⟩ := by
  obtain ⟨before, after, h⟩ := hs
  refine ⟨rfl, rfl, ?_⟩
  simp only [length, h.startOffset, h.stopOffset, Text.byteLength_append]
  omega

/-- The segment is its pieces and the separators between them. -/
structure TiledBy (s : Segment) (separators : List Span) (pieces : List Segment) : Prop where
  /-- By turns, they lead from its start to its end. -/
  tiles : ∃ spans, List.Forall₂ s.LiesAt pieces spans ∧
    Split.Tiles s.length 0 spans separators
  /-- Their texts, by turns, are its text. -/
  text : Split.interleave (pieces.map Segment.text)
    (separators.map fun p => Text.slice s.text p.start p.stop) = s.text
  /-- Without separators it stays whole. -/
  whole : separators = [] → pieces = [s]

/-- The segment is split around the matches of the pattern. They are those that searches one after
the other find, but for an empty one at the very start, and as many are used as the limit allows. -/
def SplitBy (s : Segment) (p : Pattern) (limit : SplitLimit) (pieces : List Segment) : Prop :=
  ∃ found used : List Span,
    (∀ n, (s.matcher p).spans (List.replicate n .find) = found.take n) ∧
      limit.Allows (found.filter (· ≠ ⟨0, 0⟩)) used ∧ s.TiledBy used pieces

/-- What a split makes around separators in order tiles the segment with those that it uses. -/
theorem tiledBy_splitAround (hs : s.WellPlaced) {separators : List Span}
    (hsep : Span.InOrder s.text 0 separators) {limit : SplitLimit} (hl : limit ≠ .dropTrailing) :
    s.TiledBy (Split.used limit separators) (s.splitAround separators limit) := by
  have hused := hsep.sublist (Split.used_sublist limit separators)
  by_cases hnone : Split.used limit separators = []
  · -- Nothing is split, and the segment is its only piece.
    rw [splitAround_eq_self hnone, hnone]
    refine ⟨⟨[⟨0, s.length⟩], .cons (liesAt_self hs) .nil, rfl, Nat.zero_le _⟩, ?_, fun _ => rfl⟩
    simp [Split.interleave]
  · have hpieces : Split.pieces (byteLength s.text) limit (Split.used limit separators) =
        Split.between 0 (byteLength s.text) (Split.used limit separators) := by
      cases limit with
      | dropTrailing => exact absurd rfl hl
      | keepTrailing | atMost => rfl
    have hinOrder := Split.between_inOrder hused (Text.isBoundary_zero _)
    rw [splitAround_eq_map hs hsep hnone, hpieces]
    refine ⟨⟨Split.between 0 (byteLength s.text) (Split.used limit separators), ?_, ?_⟩, ?_,
      fun h => absurd h hnone⟩
    · rw [List.forall₂_map_left_iff, List.forall₂_same]
      exact fun p _ => ⟨rfl, rfl, rfl⟩
    · rw [hs.length_eq]
      exact Split.tiles_between hused (Nat.zero_le _)
    · have hjoin := Split.interleave_between (l := []) rfl hused
      rw [List.map_map]
      refine Eq.trans (congrArg (Split.interleave · _) (List.map_congr_left fun p hp => ?_)) hjoin
      exact text_piece hs (hinOrder.inside hp)

/-- Around the matches of a pattern, a segment is split by these. -/
theorem splitBy_split (hs : s.WellPlaced) (p : Pattern) {limit : SplitLimit}
    (hl : limit ≠ .dropTrailing) : s.SplitBy p limit (s.split p limit) :=
  ⟨p.allMatches s.text, _, Matcher.spans_new_eq hs p, Split.allows_used limit _,
    tiledBy_splitAround hs (p.allMatches_inOrder s.text) hl⟩

/-- A separator given as a text is read as a pattern, or taken for a character, which has the same
matches as its pattern. -/
theorem splitBy_splitText (hs : s.WellPlaced) (separator : Text) {limit : SplitLimit}
    (hl : limit ≠ .dropTrailing) :
    (∃ e, Pattern.compile {} separator = .error e ∧ s.splitText separator limit = .error e) ∨
      ∃ p pieces, Pattern.compile {} separator = .ok p ∧
        s.splitText separator limit = .ok pieces ∧ s.SplitBy p limit pieces := by
  rcases s.splitText_cases separator with ⟨e, he, hsplit⟩ | ⟨p, hp, hsplit⟩
  · exact .inl ⟨e, he, hsplit limit⟩
  · exact .inr ⟨p, _, hp, hsplit limit, splitBy_split hs p hl⟩

/-- Every line break is used, since none is empty. -/
theorem tiledBy_lines (hs : s.WellPlaced) : s.TiledBy (LineBreak.spans s.text) s.lines := by
  have hlines : s.TiledBy (Split.used .keepTrailing (LineBreak.spans s.text)) s.lines :=
    tiledBy_splitAround hs (LineBreak.spans_inOrder s.text) (by decide)
  rwa [used_spans] at hlines

/-- Unless empty pieces are dropped, a split of any kind loses nothing and repeats nothing. -/
theorem Reachable.splits_tile {d : Document} (hs : Reachable d s) {limit : SplitLimit}
    (hl : limit ≠ .dropTrailing) :
    (∀ p, s.SplitBy p limit (s.split p limit)) ∧
      (∀ separator, (∃ e, Pattern.compile {} separator = .error e ∧
          s.splitText separator limit = .error e) ∨
        ∃ p pieces, Pattern.compile {} separator = .ok p ∧
          s.splitText separator limit = .ok pieces ∧ s.SplitBy p limit pieces) ∧
      s.TiledBy (LineBreak.spans s.text) s.lines := by
  obtain ⟨hplaced, -⟩ := hs.wellPlaced
  exact ⟨fun p => splitBy_split hplaced p hl,
    fun separator => splitBy_splitText hplaced separator hl, tiledBy_lines hplaced⟩

/-- Around the runs of `b` in `abba`, of which the first is empty and at the very start, at most two
pieces take one separator, and the second piece has all that is behind it. -/
theorem splits_tile_abba :
    ((ofText "abba".toList [] ⟨0, 0⟩).split Matcher.runsOfB (.atMost 2)).map text =
        [['a'], ['a']] ∧
      (ofText "abba".toList [] ⟨0, 0⟩).SplitBy Matcher.runsOfB (.atMost 2)
        ((ofText "abba".toList [] ⟨0, 0⟩).split Matcher.runsOfB (.atMost 2)) := by
  obtain ⟨hsplit, -⟩ := Reachable.splits_tile (.root (d := ⟨"abba".toList, [], ⟨0, 0⟩⟩))
    (show SplitLimit.atMost 2 ≠ .dropTrailing by decide)
  exact ⟨by rfl, hsplit Matcher.runsOfB⟩

end Segment

end SourceText
