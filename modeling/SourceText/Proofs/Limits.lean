import Mathlib.Data.List.DropRight
import SourceText.Proofs.Literal
import SourceText.Proofs.Reachable

/-!
# Limits

A limit says how many pieces a split may make, and what becomes of empty ones at the end. It does
not change which pieces there are: under every limit they come of those that a split makes when it
keeps all of them (`Segment.LimitsAgree`). To make at most `n` pieces is to use `n - 1` separators,
so the first `n - 1` pieces are the same and the last one goes on from the start of the next to the
end (`Split.between_take`). To drop empty pieces is to leave out the longest run of them at the end
(`Split.dropTrailingEmpty_eq_rdropWhile`). A segment in which there is no separator to use stays
whole under every limit, even when it is empty and empty pieces are dropped.

All of this holds around any separators that are in order (`Segment.limitsAgree_splitAround`), since
the tracker that places the pieces puts each where a walk from the start of the segment leads,
whatever pieces it has placed before.
-/

namespace SourceText

open Text (byteLength)

namespace Split

/-! ## Spans under a limit -/

/-- If only the first `n` separators are used, the pieces in front of them stay as they are, and all
that follows is one piece, which starts where the next one does. -/
theorem between_take {separators : List Span} {n : Nat} (hn : n < separators.length)
    (start stop : Nat) :
    ∃ next, (between start stop separators)[n]? = some next ∧
      between start stop (separators.take n) =
        (between start stop separators).take n ++ [⟨next.start, stop⟩] := by
  induction separators generalizing start n with
  | nil => exact absurd hn (Nat.not_lt_zero n)
  | cons separator rest ih =>
    cases n with
    | zero => exact ⟨⟨start, separator.start⟩, rfl, rfl⟩
    | succ n =>
      obtain ⟨next, hnext, htake⟩ := ih (Nat.lt_of_succ_lt_succ hn) separator.stop
      refine ⟨next, hnext, ?_⟩
      rw [List.take_succ_cons, between, between, htake, List.take_succ_cons, List.cons_append]

/-- The last span is dropped if it is empty. If it is not, nothing is. -/
theorem dropTrailingEmpty_concat (spans : List Span) (p : Span) :
    dropTrailingEmpty (spans ++ [p]) =
      if p.isEmpty then dropTrailingEmpty spans else spans ++ [p] := by
  by_cases hp : p.isEmpty
  · rw [if_pos hp]
    induction spans with
    | nil =>
      rw [List.nil_append, dropTrailingEmpty, dropTrailingEmpty, hp]
      rfl
    | cons s rest ih => rw [List.cons_append, dropTrailingEmpty, ih, dropTrailingEmpty]
  · rw [if_neg hp]
    induction spans with
    | nil => rw [List.nil_append, dropTrailingEmpty, dropTrailingEmpty, if_neg hp]
    | cons s rest ih =>
      -- There is always something behind `s`, so `s` stays.
      rw [List.cons_append, dropTrailingEmpty, ih]
      cases rest with
      | nil => rfl
      | cons t rest => rfl

/-- The empty spans that are dropped are the longest run of them at the end. -/
theorem dropTrailingEmpty_eq_rdropWhile (spans : List Span) :
    dropTrailingEmpty spans = spans.rdropWhile Span.isEmpty := by
  induction spans using List.reverseRecOn with
  | nil => rfl
  | append_singleton spans p ih => rw [dropTrailingEmpty_concat, List.rdropWhile_concat, ih]

end Split

namespace Segment

variable {s : Segment}

/-! ## Segments under a limit -/

/-- What is left of the segment `s` from the start of its part `t` on. -/
structure IsRest (s t rest : Segment) : Prop where
  /-- It is of the same document. -/
  document : rest.document = s.document
  /-- It starts where the part does. -/
  startOffset : rest.startOffset = t.startOffset
  /-- It stops where the segment does. -/
  stopOffset : rest.stopOffset = s.stopOffset
  /-- Its first character is where that of the part is. -/
  start : rest.start = t.start
  /-- Its last character is where a walk through its text leads. -/
  stop : rest.stop = .of t.start rest.text
  /-- That is where the last character of the segment is, if anything is left. -/
  stop_eq : rest.isEmpty = false → rest.stop = s.stop

/-- What a split makes under each limit agrees with what it makes when it keeps all pieces. -/
structure LimitsAgree (s : Segment) (split : SplitLimit → List Segment) : Prop where
  /-- A limit that is not exceeded changes nothing. -/
  within : ∀ n, (split .keepTrailing).length ≤ n → split (.atMost n) = split .keepTrailing
  /-- A limit that is exceeded leaves the pieces in front of the last that it allows, and of the
  segment the rest from there on. -/
  beyond : ∀ n, 1 ≤ n → n < (split .keepTrailing).length →
    ∃ next rest, (split .keepTrailing)[n - 1]? = some next ∧ s.IsRest next rest ∧
      split (.atMost n) = (split .keepTrailing).take (n - 1) ++ [rest]
  /-- Of several pieces, dropping leaves out the longest run of empty ones at the end. -/
  several : 1 < (split .keepTrailing).length →
    split .dropTrailing = (split .keepTrailing).rdropWhile isEmpty
  /-- A single piece is the segment, and it is not dropped. -/
  single : (split .keepTrailing).length = 1 → split .dropTrailing = [s]

/-- What is left from the start of the text on is the segment. -/
theorem isRest_self (hs : s.WellPlaced) {p : Span} (hp : p.start = 0) : s.IsRest (s.piece p) s := by
  obtain ⟨before, after, h⟩ := hs
  have hstart : s.walkTo p.start = s.start := by
    rw [hp]
    exact walkTo_eq (l := []) rfl
  exact
    { document := rfl
      startOffset := by rw [piece, hp]; rfl
      stopOffset := rfl
      start := hstart.symm
      stop := by rw [h.stop, piece, deriveAt, hstart]
      stop_eq := fun _ => rfl }

/-- What is left from the start of a piece on is the piece that reaches to the end. -/
theorem isRest_piece (hs : s.WellPlaced) {p : Span} (hin : p.Inside s.text 0 (byteLength s.text)) :
    s.IsRest (s.piece p) (s.piece ⟨p.start, byteLength s.text⟩) := by
  obtain ⟨l, r, htext, hl⟩ := Text.isBoundary_iff.mp hin.start
  have hr : Text.slice s.text p.start (byteLength s.text) = r := by
    have hslice := Text.slice_append l r []
    rwa [List.append_nil, ← htext, hl] at hslice
  have hrest : (s.piece ⟨p.start, byteLength s.text⟩).text = r := by
    rw [← hr]
    exact text_piece hs ⟨hin.start, Text.isBoundary_byteLength _, Nat.zero_le _,
      Nat.le_trans hin.le hin.le_high, Nat.le_refl _⟩
  have hstop : (s.piece ⟨p.start, byteLength s.text⟩).stop = .of (s.walkTo p.start) r :=
    congrArg (EndPosition.of (s.walkTo p.start)) hr
  refine
    { document := rfl
      startOffset := rfl
      stopOffset := ?_
      start := rfl
      stop := by rw [hstop, hrest]; rfl
      stop_eq := fun hne => ?_ }
  · obtain ⟨before, after, h⟩ := hs
    change s.startOffset + byteLength s.text = s.stopOffset
    rw [h.startOffset, h.stopOffset, Text.byteLength_append]
  · -- The last character of the rest is that of the segment, and the walk to it goes on from `l`.
    rcases r.eq_nil_or_concat' with rfl | ⟨b, c, rfl⟩
    · have hend : byteLength s.text = p.start := by rw [htext, List.append_nil, hl]
      rw [piece, deriveAt, isEmpty, hend, beq_self_eq_true] at hne
      cases hne
    · obtain ⟨before, after, h⟩ := hs
      have hwalk : s.walkTo p.start = s.start.advance l (b ++ [c]).head? := by
        rw [← hl]
        exact walkTo_eq htext
      have hlast : (s.walkTo p.start).advance b (some c) = s.start.advance (l ++ b) (some c) := by
        rw [hwalk, Position.advance_append, List.head?_append]
        rfl
      rw [hstop, h.stop, htext, ← List.append_assoc, EndPosition.of_concat,
        EndPosition.of_concat, hlast]

variable {separators : List Span}

/-- If all pieces are kept, there is one more of them than there are separators to use. -/
theorem length_splitAround (hs : s.WellPlaced) (hsep : Span.InOrder s.text 0 separators) :
    (s.splitAround separators .keepTrailing).length =
      (Split.used .keepTrailing separators).length + 1 := by
  by_cases hnone : Split.used .keepTrailing separators = []
  · rw [splitAround_eq_self hnone, hnone]
    rfl
  · rw [splitAround_eq_map hs hsep hnone, List.length_map]
    exact Split.length_between _ _ _

/-- A piece is empty when its span is. -/
theorem isEmpty_piece (p : Span) : (s.piece p).isEmpty = p.isEmpty := by
  rw [Bool.eq_iff_iff, isEmpty, Span.isEmpty, beq_iff_eq, beq_iff_eq]
  exact Nat.add_left_cancel_iff

/-- All separators are used if the limit allows a piece more than there are of them. -/
theorem splitAround_atMost_of_le {n : Nat}
    (hn : (Split.used .keepTrailing separators).length ≤ n - 1) :
    s.splitAround separators (.atMost n) = s.splitAround separators .keepTrailing := by
  have hused : Split.used (.atMost n) separators = Split.used .keepTrailing separators :=
    List.take_of_length_le hn
  rw [splitAround, splitAround, hused]
  cases Split.used .keepTrailing separators with
  | nil => rfl
  | cons separator rest => rfl

/-- If there are more, all behind the last piece that the limit allows is left whole. -/
theorem splitAround_atMost_of_lt (hs : s.WellPlaced) (hsep : Span.InOrder s.text 0 separators)
    {n : Nat} (hn : n - 1 < (Split.used .keepTrailing separators).length) :
    ∃ next rest, (s.splitAround separators .keepTrailing)[n - 1]? = some next ∧
      s.IsRest next rest ∧ s.splitAround separators (.atMost n) =
        (s.splitAround separators .keepTrailing).take (n - 1) ++ [rest] := by
  have hne := List.ne_nil_of_length_pos (Nat.zero_lt_of_lt hn)
  have hall : s.splitAround separators .keepTrailing =
      (Split.between 0 (byteLength s.text) (Split.used .keepTrailing separators)).map s.piece :=
    splitAround_eq_map hs hsep hne
  have hused : Split.used (.atMost n) separators =
      (Split.used .keepTrailing separators).take (n - 1) := rfl
  have hbetween := Split.between_inOrder
    (hsep.sublist (Split.used_sublist .keepTrailing separators)) (Text.isBoundary_zero _)
  generalize Split.used .keepTrailing separators = used at *
  obtain ⟨next, hnext, htake⟩ := Split.between_take hn 0 (byteLength s.text)
  have hpiece : (s.splitAround separators .keepTrailing)[n - 1]? = some (s.piece next) := by
    rw [hall, List.getElem?_map, hnext, Option.map_some]
  by_cases hnone : used.take (n - 1) = []
  · -- Only one piece is allowed, and it is the whole segment.
    have hzero : n - 1 = 0 := (List.take_eq_nil_iff.mp hnone).resolve_right hne
    have hstart : next.start = 0 := by
      rw [hnone, hzero, List.take_zero, Split.between, List.nil_append] at htake
      exact (congrArg Span.start (List.cons.inj htake).1).symm
    refine ⟨_, s, hpiece, isRest_self hs hstart, ?_⟩
    rw [splitAround_eq_self (hused.trans hnone), hzero, List.take_zero, List.nil_append]
  · have hin := hbetween.inside (List.mem_of_getElem? hnext)
    refine ⟨_, _, hpiece, isRest_piece hs hin, ?_⟩
    rw [splitAround_eq_map hs hsep (by rwa [hused]), hused, hall, Split.pieces, htake,
      List.map_append, List.map_take]
    rfl

/-- If there are any separators to use, the empty pieces at the end are those that dropping leaves
out. -/
theorem splitAround_dropTrailing (hs : s.WellPlaced) (hsep : Span.InOrder s.text 0 separators)
    (hne : Split.used .keepTrailing separators ≠ []) :
    s.splitAround separators .dropTrailing =
      (s.splitAround separators .keepTrailing).rdropWhile isEmpty := by
  have hused : Split.used .dropTrailing separators = Split.used .keepTrailing separators := rfl
  have hempty : isEmpty ∘ s.piece = Span.isEmpty := funext isEmpty_piece
  rw [splitAround_eq_map hs hsep (by rwa [hused]), splitAround_eq_map hs hsep hne, hused,
    Split.pieces, Split.pieces, Split.dropTrailingEmpty_eq_rdropWhile, List.rdropWhile,
    List.rdropWhile, ← List.map_reverse, List.dropWhile_map, hempty, List.map_reverse]

/-- Around separators in order, the limits agree. -/
theorem limitsAgree_splitAround (hs : s.WellPlaced) (hsep : Span.InOrder s.text 0 separators) :
    s.LimitsAgree (s.splitAround separators) := by
  have hlength := length_splitAround hs hsep
  constructor
  case within =>
    intro n hn
    exact splitAround_atMost_of_le (by omega)
  case beyond =>
    intro n hpos hn
    exact splitAround_atMost_of_lt hs hsep (by omega)
  case several =>
    intro hmany
    exact splitAround_dropTrailing hs hsep (List.ne_nil_of_length_pos (by omega))
  case single =>
    intro hone
    have hnone : Split.used .keepTrailing separators = [] :=
      List.eq_nil_of_length_eq_zero (by omega)
    exact splitAround_eq_self hnone

/-- Whatever the separator, the limits agree: those of a split by a pattern, and of one by a text
that is read as a pattern, unless every limit refuses the text. -/
theorem Reachable.limits_agree {d : Document} (hs : Reachable d s) :
    (∀ p, s.LimitsAgree (s.split p)) ∧
      ∀ separator, (∃ e, Pattern.compile {} separator = .error e ∧
          ∀ limit, s.splitText separator limit = .error e) ∨
        ∃ pieces : SplitLimit → List Segment,
          (∀ limit, s.splitText separator limit = .ok (pieces limit)) ∧ s.LimitsAgree pieces := by
  obtain ⟨hplaced, -⟩ := hs.wellPlaced
  have hsplit (p : Pattern) : s.LimitsAgree (s.split p) :=
    limitsAgree_splitAround hplaced (p.allMatches_inOrder s.text)
  refine ⟨hsplit, fun separator => ?_⟩
  rcases s.splitText_cases separator with h | ⟨p, -, h⟩
  · exact .inl h
  · exact .inr ⟨s.split p, h, hsplit p⟩

/-- At commas, `a,b,,` has four pieces. At most three of them are `a`, `b` and the comma behind the
second separator, and without empty ones at the end `a` and `b` are left. -/
theorem limits_agree_two_empty :
    ∃ pieces : SplitLimit → List Segment,
      (∀ limit, (ofText "a,b,,".toList [] ⟨0, 0⟩).splitText [','] limit = .ok (pieces limit)) ∧
        (ofText "a,b,,".toList [] ⟨0, 0⟩).LimitsAgree pieces ∧
        (pieces .keepTrailing).map text = [['a'], ['b'], [], []] ∧
        (pieces (.atMost 3)).map text = [['a'], ['b'], [',']] ∧
        (pieces .dropTrailing).map text = [['a'], ['b']] := by
  obtain ⟨-, hsplit⟩ := Reachable.limits_agree (.root (d := ⟨"a,b,,".toList, [], ⟨0, 0⟩⟩))
  rcases hsplit [','] with ⟨e, -, he⟩ | ⟨pieces, hpieces, hagree⟩
  · cases he .keepTrailing
  · have hkeep := Except.ok.inj (hpieces .keepTrailing)
    have hmost := Except.ok.inj (hpieces (.atMost 3))
    have hdrop := Except.ok.inj (hpieces .dropTrailing)
    refine ⟨pieces, hpieces, hagree, ?_, ?_, ?_⟩
    · rw [← hkeep]
      rfl
    · rw [← hmost]
      rfl
    · rw [← hdrop]
      rfl

end Segment

end SourceText
