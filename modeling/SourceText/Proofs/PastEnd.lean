import SourceText.Proofs.Alike
import SourceText.Proofs.Coordinates
import SourceText.Proofs.Tiling

/-!
# Just past the end

There are two ways to the place where a part of a segment starts. `walkTo` walks there from the
start of the segment; `positionAt`, which `substring` goes by, does so too, but puts the end of a
segment that has characters just past the last of them. The two differ only there, and only if that
character completes a line break, since a walk then goes on to the next line
(`Position.justPast_eq_after_iff`). What that means for parts that have been cut out in different
ways is the content of two theorems.

A split places its pieces in one walk, and `substring` finds each from the start. The pieces are
alike to the parts at their offsets but for the empty one behind a line break that ends the segment
(`Reachable.pieces_meet_parts`).

A part of a part is alike to the part of the whole at the same place, unless it is the empty one at
the end of an outer part that has characters. That one is just past the last of them, while in the
whole a line break may be complete there and more text follow (`Reachable.nested_substring`).

The line behind a line break always exists here. On a machine that cannot count to it, the split
that has a piece there is not completed (`Proofs.Machine.Coordinates`).
-/

namespace SourceText

open Text (byteLength isBoundary)

/-- The position one column past a character at `q`, if a signed column reaches that far. -/
def Position.justPast (q : Position) : Position := ⟨q.line, min (q.col + 1) maxSignedCol⟩

/-- It is where a walk past the character leads, unless the character completes a line break. -/
theorem Position.justPast_eq_after_iff {q : Position} {c : Char} {next? : Option Char}
    (hfit : (q.after c next?).col ≤ maxSignedCol) :
    q.justPast = q.after c next? ↔ ¬ (c = '\n' ∨ c = '\r' ∧ next? ≠ some '\n') := by
  unfold justPast after at *
  split_ifs at hfit ⊢ with hbreak
  · -- The walk goes on to the next line.
    refine iff_of_false (fun h => ?_) (not_not_intro hbreak)
    have hline : q.line = q.line + 1 := congrArg Position.line h
    omega
  · rw [Nat.min_eq_left hfit]
    exact iff_of_true rfl hbreak

namespace Segment

variable {s t : Segment}

/-- No column that a walk through the segment comes to is too large for a signed number. -/
def ColumnsFit (s : Segment) : Prop :=
  ∀ l r, s.text = l ++ r → (s.start.advance l r.head?).col ≤ maxSignedCol

/-- If the columns of a document fit, so do those of all its segments. -/
theorem Reachable.columnsFit {d : Document} (hs : Reachable d s) (hcols : d.ColumnsFit) :
    s.ColumnsFit := by
  obtain ⟨rfl, before, after, h⟩ := hs.aligned hcols
  intro l r htext
  have hstart := h.start_col_le
  have hwalk := Position.col_advance_le s.start l r.head?
  have hlen : before.length + l.length ≤ s.document.text.length := by
    rw [h.lies.text, htext]
    simp only [List.length_append]
    omega
  unfold Document.ColumnsFit at hcols
  omega

/-! ## The end of a segment -/

/-- The position past the end of a segment is just past its last character. -/
theorem pastEnd_eq_justPast (hs : s.WellPlaced) {l : Text} {c : Char} (htext : s.text = l ++ [c]) :
    s.pastEnd = (s.start.advance l (some c)).justPast := by
  obtain ⟨before, after, h⟩ := hs
  have hstop : s.stop = ⟨(s.start.advance l (some c)).line,
      signedCol ((s.start.advance l (some c)).col + 1) - 1⟩ := by
    rw [h.stop, htext, EndPosition.of_concat]
  have hcol : (s.stop.col + 1).toNat = min ((s.start.advance l (some c)).col + 1) maxSignedCol := by
    rw [hstop]
    unfold signedCol
    simp only
    omega
  rw [pastEnd, hcol, hstop]
  rfl

/-- Its column is one more than that of the end. -/
theorem col_pastEnd (hs : s.WellPlaced) : (s.pastEnd.col : Int) = s.stop.col + 1 := by
  obtain ⟨hlow, -⟩ := col_stop_lt hs
  exact Int.toNat_of_nonneg (by omega)

/-- The segment ends with a line break, or with the first half of one. -/
def EndsInBreak (s : Segment) : Prop := s.text.getLast? = some '\n' ∨ s.text.getLast? = some '\r'

/-- Parts start where walks lead, except behind a line break that ends the segment. -/
theorem positionAt_eq_walkTo_iff (hs : s.WellPlaced) (hcols : s.ColumnsFit) {n : Nat}
    (hn : isBoundary s.text n = true) :
    s.positionAt n = s.walkTo n ↔ ¬ (n = s.length ∧ s.EndsInBreak) := by
  obtain ⟨l, r, htext, rfl⟩ := Text.isBoundary_iff.mp hn
  have hlen : s.length = byteLength l + byteLength r := by
    rw [hs.length_eq, htext, Text.byteLength_append]
  by_cases hr : r = []
  · subst hr
    rw [List.append_nil] at htext
    rcases l.eq_nil_or_concat' with rfl | ⟨b, c, rfl⟩
    · -- An empty segment is its own end.
      refine iff_of_true (positionAt_eq_walkTo hs htext (.inr htext)) ?_
      simp [EndsInBreak, htext]
    · have hpast : s.positionAt (byteLength (b ++ [c])) =
          (s.start.advance b (some c)).justPast := by
        rw [← htext, positionAt_eq_pastEnd hs (by simp [htext]), pastEnd_eq_justPast hs htext]
      have hwalk : s.walkTo (byteLength (b ++ [c])) =
          (s.start.advance b (some c)).after c none := by
        rw [walkTo_eq (htext.trans (List.append_nil _).symm), Position.advance_concat]
        rfl
      have hfit := hcols (b ++ [c]) [] (htext.trans (List.append_nil _).symm)
      rw [Position.advance_concat, List.head?_nil] at hfit
      rw [hpast, hwalk, Position.justPast_eq_after_iff hfit]
      simp [EndsInBreak, htext, hlen]
  · -- The offset is not the end.
    refine iff_of_true (positionAt_eq_walkTo hs htext (.inl hr)) fun hend => hr ?_
    exact Text.byteLength_eq_zero.mp (by omega)

/-- Behind a line break that ends the segment, a walk comes to the start of the next line. -/
theorem walkTo_length_of_endsInBreak (hs : s.WellPlaced) (h : s.EndsInBreak) :
    s.walkTo s.length = ⟨s.stop.line + 1, 0⟩ := by
  obtain ⟨c, hlast, hc⟩ : ∃ c, s.text.getLast? = some c ∧ (c = '\n' ∨ c = '\r') := by
    rcases h with h | h
    · exact ⟨_, h, .inl rfl⟩
    · exact ⟨_, h, .inr rfl⟩
  obtain ⟨b, htext⟩ := List.getLast?_eq_some_iff.mp hlast
  have hafter : (s.start.advance b (some c)).after c none =
      ⟨(s.start.advance b (some c)).line + 1, 0⟩ :=
    if_pos (hc.imp_right fun hr => ⟨hr, by simp⟩)
  have hline : s.stop.line = (s.start.advance b (some c)).line :=
    congrArg Position.line (pastEnd_eq_justPast hs htext)
  rw [hs.length_eq, walkTo_eq (List.append_nil _).symm, hline, ← hafter]
  conv_lhs => rw [htext, List.head?_nil, Position.advance_concat]

/-! ## Pieces and parts -/

/-- The piece `t` of the segment `s` at a span of its text, and the part `u` that is cut out
there. -/
structure CutTwice (s t u : Segment) (span : Span) : Prop where
  /-- The piece is at the span. -/
  lies : s.LiesAt t span
  /-- So is the part. -/
  part : s.substring span.start span.stop = .ok u
  /-- They read the same. -/
  text : t.text = u.text
  /-- They are alike, unless they are behind a line break that ends the segment. -/
  alike_iff : t.Alike u ↔ ¬ (span.start = s.length ∧ s.EndsInBreak)
  /-- There the piece is at the start of the next line, and the part one column past the break. -/
  behindBreak : span.start = s.length → s.EndsInBreak →
    t.start = ⟨s.stop.line + 1, 0⟩ ∧ u.start.line = s.stop.line ∧
      (u.start.col : Int) = s.stop.col + 1

/-- The piece `t` is at a span, and so is a part. -/
def MeetsPart (s t : Segment) : Prop := ∃ span u, s.CutTwice t u span

/-- What starts where a walk leads meets what is cut out at its place. -/
theorem cutTwice_of_walk (hs : s.WellPlaced) (hcols : s.ColumnsFit) {span : Span}
    (hin : span.Inside s.text 0 (byteLength s.text)) (hlies : s.LiesAt t span)
    (ht : t.WellPlaced) (hstart : t.start = s.walkTo span.start) :
    s.CutTwice t (s.derive span.start span.stop) span := by
  have hpart := (isCut_derive hin).wellPlaced hs
  have hposition := positionAt_eq_walkTo_iff hs hcols hin.start
  have htext : t.text = (s.derive span.start span.stop).text := by
    rw [Segment.text, hlies.document, hlies.startOffset, hlies.stopOffset]
    rfl
  have hsource : t.source = (s.derive span.start span.stop).source :=
    congrArg Document.source hlies.document
  refine
    { lies := hlies
      part := substring_eq_ok_iff.mpr ⟨by rwa [hs.length_eq], rfl⟩
      text := htext
      alike_iff := ?_
      behindBreak := fun hend hbreak => ?_ }
  · rw [ht.alike_iff hpart htext hsource, hstart, ← hposition]
    exact eq_comm
  · have hne : s.text ≠ [] := by
      rintro hnil
      simp [EndsInBreak, hnil] at hbreak
    have hpast : (s.derive span.start span.stop).start = s.pastEnd := by
      change s.positionAt span.start = s.pastEnd
      rw [hend, hs.length_eq, positionAt_eq_pastEnd hs hne]
    rw [hstart, hpast, hend, walkTo_length_of_endsInBreak hs hbreak]
    exact ⟨rfl, rfl, col_pastEnd hs⟩

/-- What a segment is split into meets what is cut out of it. -/
theorem meetsPart_of_mem_splitAround (hs : s.WellPlaced) (hcols : s.ColumnsFit)
    {separators : List Span} {limit : SplitLimit} (hsep : Span.InOrder s.text 0 separators)
    (ht : t ∈ s.splitAround separators limit) : s.MeetsPart t := by
  rcases eq_or_exists_of_mem_splitAround hs hsep ht with rfl | ⟨p, hin, rfl⟩
  · have hin : (⟨0, t.length⟩ : Span).Inside t.text 0 (byteLength t.text) := by
      rw [hs.length_eq]
      exact ⟨Text.isBoundary_zero _, Text.isBoundary_byteLength _, Nat.le_refl _, Nat.zero_le _,
        Nat.le_refl _⟩
    have hstart : t.walkTo 0 = t.start := walkTo_eq (l := []) rfl
    exact ⟨_, _, cutTwice_of_walk hs hcols hin (liesAt_self hs) hs hstart.symm⟩
  · exact ⟨_, _, cutTwice_of_walk hs hcols hin ⟨rfl, rfl, rfl⟩ ((isPart_piece hin).wellPlaced hs)
      rfl⟩

/-- Pieces are alike to the parts at their offsets, but for the empty piece behind a line break that
ends the segment. -/
theorem Reachable.pieces_meet_parts {d : Document} (hs : Reachable d s) (hcols : s.ColumnsFit) :
    (∀ p limit, ∀ t ∈ s.split p limit, s.MeetsPart t) ∧
      (∀ separator limit pieces, s.splitText separator limit = .ok pieces →
        ∀ t ∈ pieces, s.MeetsPart t) ∧
      ∀ t ∈ s.lines, s.MeetsPart t := by
  obtain ⟨hplaced, -⟩ := hs.wellPlaced
  have hsplit : ∀ p limit, ∀ t ∈ s.split p limit, s.MeetsPart t := fun p limit t ht =>
    meetsPart_of_mem_splitAround hplaced hcols (p.allMatches_inOrder s.text) ht
  refine ⟨hsplit, ?_, fun t ht => ?_⟩
  · intro separator limit pieces hpieces
    rcases s.splitText_cases separator with ⟨e, -, h⟩ | ⟨p, -, h⟩
    · cases (h limit).symm.trans hpieces
    · obtain rfl := Except.ok.inj ((h limit).symm.trans hpieces)
      exact hsplit p limit
  · exact meetsPart_of_mem_splitAround hplaced hcols (LineBreak.spans_inOrder s.text) ht

/-! ## Parts of parts -/

/-- What the text is cut into can be cut out of the segment. -/
theorem substring_of_cut (hs : s.WellPlaced) {l m r : Text} (htext : s.text = l ++ m ++ r) :
    s.substring (byteLength l) (byteLength (l ++ m)) =
      .ok (s.derive (byteLength l) (byteLength (l ++ m))) := by
  have hin := Span.inside_of_cut l m r
  rw [← htext, ← hs.length_eq] at hin
  exact substring_eq_ok_iff.mpr ⟨hin, rfl⟩

/-- Behind a character, a part of a segment starts just past it, unless it completes a line break
and the segment goes on. -/
theorem justPast_eq_positionAt_iff (hs : s.WellPlaced) (hcols : s.ColumnsFit) {l r : Text}
    {c : Char} (htext : s.text = l ++ [c] ++ r) :
    (s.start.advance l (some c)).justPast = s.positionAt (byteLength (l ++ [c])) ↔
      ¬ (r ≠ [] ∧ (c = '\n' ∨ c = '\r' ∧ r.head? ≠ some '\n')) := by
  by_cases hr : r = []
  · subst hr
    rw [List.append_nil] at htext
    rw [← htext, positionAt_eq_pastEnd hs (by simp [htext]), pastEnd_eq_justPast hs htext]
    exact iff_of_true rfl fun h => h.1 rfl
  · have hfit := hcols (l ++ [c]) r htext
    rw [Position.advance_concat] at hfit
    rw [positionAt_eq_advance hs htext hr, Position.advance_concat,
      Position.justPast_eq_after_iff hfit, and_iff_right hr]

/-- Where the empty part at the end of a part starts that is `b` and a last character. -/
theorem positionAt_derive_end (hs : s.WellPlaced) {l b r : Text} {c : Char}
    (htext : s.text = l ++ (b ++ [c]) ++ r) :
    (s.derive (byteLength l) (byteLength (l ++ (b ++ [c])))).positionAt (byteLength (b ++ [c])) =
      (s.start.advance (l ++ b) (some c)).justPast := by
  have hpart := (isCut_derive_of_cut htext).wellPlaced hs
  have houter := hs.text_derive htext
  have hstart : s.positionAt (byteLength l) = s.start.advance l (b ++ [c]).head? := by
    rw [positionAt_eq_advance hs (htext.trans (List.append_assoc _ _ _)) (by simp),
      List.head?_append_of_ne_nil _ (by simp)]
  have hwalk : (s.positionAt (byteLength l)).advance b (some c) =
      s.start.advance (l ++ b) (some c) := by
    rw [hstart, Position.advance_append, List.head?_append]
    rfl
  have hend := positionAt_eq_pastEnd hpart (by rw [houter]; simp)
  rw [houter] at hend
  rw [hend, pastEnd_eq_justPast hpart houter, ← hwalk]
  rfl

/-- The empty part `t` at the end of a part `o` of the segment `s`, where `o` has characters and
stops at offset `n` of the segment. -/
structure AtEnd (s o t : Segment) (n : Nat) : Prop where
  /-- It has no characters. -/
  empty : t.isEmpty = true
  /-- It is on the line of the last character of `o`. -/
  line : t.start.line = o.stop.line
  /-- It is one column past that. -/
  col : (t.start.col : Int) = o.stop.col + 1
  /-- It is alike to the empty part of the segment at its offset, unless the segment goes on there
  and the last character of `o` completes a line break in it. -/
  alike_iff : ∃ u, s.substring n n = .ok u ∧
    (t.Alike u ↔ ¬ (n < s.length ∧ (o.text.getLast? = some '\n' ∨
      o.text.getLast? = some '\r' ∧ Text.charAt? s.text n ≠ some '\n')))

/-- The part between an offset and itself is an empty segment. -/
theorem empty_derive (hs : s.WellPlaced) {l r : Text} (htext : s.text = l ++ r) :
    (s.derive (byteLength l) (byteLength l)).WellPlaced ∧
      (s.derive (byteLength l) (byteLength l)).text = [] := by
  have hcut : s.text = l ++ [] ++ r := by simpa using htext
  have hplaced := (isCut_derive_of_cut hcut).wellPlaced hs
  have hempty := hs.text_derive hcut
  rw [List.append_nil] at hplaced hempty
  exact ⟨hplaced, hempty⟩

/-- It is found wherever the text can be cut. -/
theorem substring_empty (hs : s.WellPlaced) {l r : Text} (htext : s.text = l ++ r) :
    s.substring (byteLength l) (byteLength l) = .ok (s.derive (byteLength l) (byteLength l)) := by
  have h := substring_of_cut hs (l := l) (m := []) (r := r) (by simpa using htext)
  rwa [List.append_nil] at h

/-- The empty part at the end of a part with characters is one column past the last of them, where
the segment itself goes on to the next line if that was a break. -/
theorem atEnd_derive (hs : s.WellPlaced) (hcols : s.ColumnsFit) {l b r : Text} {c : Char}
    (htext : s.text = l ++ (b ++ [c]) ++ r) :
    s.AtEnd (s.derive (byteLength l) (byteLength (l ++ (b ++ [c]))))
      ((s.derive (byteLength l) (byteLength (l ++ (b ++ [c])))).derive (byteLength (b ++ [c]))
        (byteLength (b ++ [c])))
      (byteLength (l ++ (b ++ [c]))) := by
  have hpart := (isCut_derive_of_cut htext).wellPlaced hs
  have houter := hs.text_derive htext
  have hposition := positionAt_derive_end hs htext
  have hdocument : (s.derive (byteLength l) (byteLength (l ++ (b ++ [c])))).document = s.document :=
    rfl
  generalize s.derive (byteLength l) (byteLength (l ++ (b ++ [c]))) = o at *
  have hpast : o.positionAt (byteLength (b ++ [c])) = o.pastEnd := by
    rw [← houter]
    exact positionAt_eq_pastEnd hpart (by rw [houter]; simp)
  obtain ⟨hplaced, hempty⟩ := empty_derive hpart (houter.trans (List.append_nil _).symm)
  obtain ⟨hplaced', hempty'⟩ := empty_derive hs htext
  -- The segment goes on at the end of the part if there is something behind it.
  have hmore : byteLength (l ++ (b ++ [c])) < s.length ↔ r ≠ [] := by
    rw [hs.length_eq, htext, Text.byteLength_append (l ++ (b ++ [c])), ne_eq,
      ← Text.byteLength_eq_zero]
    omega
  have hlast : o.text.getLast? = some c := by rw [houter, List.getLast?_concat]
  have hnext : Text.charAt? s.text (byteLength (l ++ (b ++ [c]))) = r.head? := by
    rw [htext, Text.charAt?_append]
  refine
    { empty := beq_self_eq_true _
      line := congrArg Position.line hpast
      col := ?_
      alike_iff := ⟨_, substring_empty hs htext, ?_⟩ }
  · rw [← col_pastEnd hpart, ← hpast]
    rfl
  · have hstart : (o.positionAt (byteLength (b ++ [c])) =
        s.positionAt (byteLength (l ++ (b ++ [c])))) ↔
          ¬ (r ≠ [] ∧ (c = '\n' ∨ c = '\r' ∧ r.head? ≠ some '\n')) := by
      rw [hposition, ← List.append_assoc]
      exact justPast_eq_positionAt_iff hs hcols (by simp [htext])
    rw [hplaced.alike_iff hplaced' (hempty.trans hempty'.symm) (congrArg Document.source hdocument),
      hmore, hlast, hnext, Option.some_inj, Option.some_inj]
    exact hstart

/-- Before the end of a part, and in an empty one, what is cut out of it is alike to what is cut out
of the segment at the same place. -/
theorem exists_substring_alike (hs : s.WellPlaced) {l x y z r : Text}
    (htext : s.text = l ++ (x ++ y ++ z) ++ r) (hbefore : y ++ z ≠ [] ∨ x = []) :
    ∃ u, s.substring (byteLength l + byteLength x) (byteLength l + byteLength (x ++ y)) = .ok u ∧
      ((s.derive (byteLength l) (byteLength (l ++ (x ++ y ++ z)))).derive (byteLength x)
        (byteLength (x ++ y))).Alike u := by
  have hcut : s.text = (l ++ x) ++ y ++ (z ++ r) := by simp [htext]
  have hsub := substring_of_cut hs hcut
  have halike := derive_derive_alike hs htext hbefore
  rw [List.append_assoc l x y, Text.byteLength_append l x, Text.byteLength_append l (x ++ y)]
    at hsub halike
  exact ⟨_, hsub, halike.symm⟩

/-- A part of a part is alike to the part of the segment at the same place, if it starts before the
end of the outer part or that is empty. Otherwise it is the empty part at the end. -/
theorem Reachable.nested_substring {d : Document} (hs : Reachable d s) (hcols : s.ColumnsFit)
    {outer inner : Span} (hout : outer.Inside s.text 0 s.length)
    (hin : inner.Inside (Text.slice s.text outer.start outer.stop) 0 (outer.stop - outer.start)) :
    ∃ o t, s.substring outer.start outer.stop = .ok o ∧
      o.substring inner.start inner.stop = .ok t ∧
      (inner.start < o.length ∨ o.isEmpty = true →
        ∃ u, s.substring (outer.start + inner.start) (outer.start + inner.stop) = .ok u ∧
          t.Alike u) ∧
      (inner.start = o.length → o.isEmpty = false → s.AtEnd o t outer.stop) := by
  obtain ⟨hplaced, -⟩ := hs.wellPlaced
  obtain ⟨l, x, y, z, r, htext, rfl, rfl⟩ := hout.nested_cut hin
  have hpart := (isCut_derive_of_cut htext).wellPlaced hplaced
  have houter := hplaced.text_derive htext
  have hlen := hpart.length_eq
  have hempty := hpart.isEmpty_iff
  rw [houter] at hlen hempty
  refine ⟨_, _, substring_of_cut hplaced htext, substring_of_cut hpart houter, ?_, ?_⟩
  · intro hbefore
    refine exists_substring_alike hplaced htext ?_
    rcases hbefore with hlt | hnil
    · left
      intro hyz
      rw [hlen, List.append_assoc, hyz, List.append_nil] at hlt
      exact Nat.lt_irrefl _ hlt
    · right
      have hxyz := hempty.mp hnil
      exact (List.append_eq_nil_iff.mp (List.append_eq_nil_iff.mp hxyz).1).1
  · intro hend hne
    -- All of the outer part is in front of the inner one.
    have hall : byteLength x = byteLength (x ++ y ++ z) := hend.trans hlen
    rw [List.append_assoc, Text.byteLength_append] at hall
    have hyz : y ++ z = [] := Text.byteLength_eq_zero.mp (by omega)
    obtain ⟨rfl, rfl⟩ := List.append_eq_nil_iff.mp hyz
    simp only [List.append_nil] at htext hempty hne ⊢
    rcases x.eq_nil_or_concat' with rfl | ⟨b, c, rfl⟩
    · rw [hempty.mpr rfl] at hne
      cases hne
    · exact atEnd_derive hplaced hcols htext

/-- In `"a\nb"`, the end of the first two characters is past the line feed on line 0, while what
follows them starts line 1. -/
theorem nested_substring_behind_line_feed :
    ∃ o t, (ofText "a\nb".toList [] ⟨0, 0⟩).substring 0 2 = .ok o ∧ o.substring 2 2 = .ok t ∧
      (ofText "a\nb".toList [] ⟨0, 0⟩).AtEnd o t 2 ∧ t.start = ⟨0, 2⟩ ∧
      ∃ u, (ofText "a\nb".toList [] ⟨0, 0⟩).substring 2 2 = .ok u ∧ u.start = ⟨1, 0⟩ ∧
        ¬ t.Alike u := by
  have hroot : Reachable ⟨"a\nb".toList, [], ⟨0, 0⟩⟩ _ := .root
  have hout : (⟨0, 2⟩ : Span).Inside "a\nb".toList 0 3 :=
    ⟨by decide, by decide, by decide, by decide, by decide⟩
  have hin : (⟨2, 2⟩ : Span).Inside "a\n".toList 0 2 :=
    ⟨by decide, by decide, by decide, by decide, by decide⟩
  obtain ⟨o, t, ho, ht, -, hend⟩ :=
    hroot.nested_substring (hroot.columnsFit (by decide)) hout hin
  obtain rfl := Except.ok.inj ho
  obtain rfl := Except.ok.inj ht
  have hatEnd := hend rfl rfl
  obtain ⟨u, hu, halike⟩ := hatEnd.alike_iff
  refine ⟨_, _, ho, ht, hatEnd, rfl, u, hu, ?_, ?_⟩
  · obtain rfl := Except.ok.inj hu
    rfl
  · rw [halike]
    decide

end Segment

end SourceText
