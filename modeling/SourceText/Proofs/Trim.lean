import Mathlib.Data.List.TakeWhile
import SourceText.Proofs.PastEnd

/-!
# What trimming leaves

A text that has a character above the space is `l ++ m ++ r`, where `m` begins and ends with such a
character and there is none in `l` or `r` (`BlankEdges`). The two scans of `trim` stop at the edges
of `m`, so it is what is left (`trim_of_blankEdges`). In a text of nothing but blanks both scans go
all the way, the one past the other, and the empty segment past the end is left
(`trim_of_all_blank`). In either case the edges of what is left are not blank, and trimming it again
leaves it as it is.
-/

namespace SourceText.Segment

open Text (byteLength)

variable {s t : Segment} {l m r : Text}

/-- The characters that are trimmed are the space and those below it. -/
theorem isTrimmed_iff {c : Char} : isTrimmed c = true ↔ c ≤ ' ' := decide_eq_true_iff

/-! ## The edges of a text -/

/-- The text `m` begins and ends with characters above the space, and has none of them on its
left, in `l`, or on its right, in `r`. -/
structure BlankEdges (l m r : Text) : Prop where
  /-- All is blank on the left. -/
  left : ∀ c ∈ l, c ≤ ' '
  /-- The text between the edges begins with a character that is not, -/
  first : ∃ c, m.head? = some c ∧ ' ' < c
  /-- and ends with one. -/
  last : ∃ c, m.getLast? = some c ∧ ' ' < c
  /-- All is blank on the right. -/
  right : ∀ c ∈ r, c ≤ ' '

/-- Seen from behind, the edges change places. -/
theorem BlankEdges.reverse (h : BlankEdges l m r) : BlankEdges r.reverse m.reverse l.reverse where
  left c hc := h.right c (List.mem_reverse.mp hc)
  first := by
    rw [List.head?_reverse]
    exact h.last
  last := by
    rw [List.getLast?_reverse]
    exact h.first
  right c hc := h.left c (List.mem_reverse.mp hc)

/-- A scan over blanks stops where the left edge does. -/
theorem BlankEdges.takeWhile_eq (h : BlankEdges l m r) :
    (l ++ m ++ r).takeWhile isTrimmed = l := by
  obtain ⟨c, hc, habove⟩ := h.first
  obtain ⟨m, rfl⟩ := List.head?_eq_some_iff.mp hc
  have hstop : ((c :: m) ++ r).takeWhile isTrimmed = [] :=
    List.takeWhile_cons_of_neg (by rw [isTrimmed_iff, Char.not_le]; exact habove)
  rw [List.append_assoc, List.takeWhile_append_of_pos fun c hc => isTrimmed_iff.mpr (h.left c hc),
    hstop, List.append_nil]

/-- A character above the space is the first of its kind, or another one is. -/
theorem exists_first_above {text : Text} (h : ∃ c ∈ text, ' ' < c) :
    ∃ l c r, text = l ++ c :: r ∧ (∀ a ∈ l, a ≤ ' ') ∧ ' ' < c := by
  induction text with
  | nil => simp at h
  | cons a text ih =>
    by_cases ha : ' ' < a
    · exact ⟨[], a, text, rfl, by simp, ha⟩
    · -- It is further on, behind a blank.
      obtain ⟨c, hc, habove⟩ := h
      rcases List.mem_cons.mp hc with rfl | hc
      · exact absurd habove ha
      · obtain ⟨l, b, r, rfl, hl, hb⟩ := ih ⟨c, hc, habove⟩
        exact ⟨a :: l, b, r, rfl, List.forall_mem_cons.mpr ⟨Char.not_lt.mp ha, hl⟩, hb⟩

/-- A text has edges if not all of it is blank. -/
theorem exists_blankEdges {text : Text} (h : ∃ c ∈ text, ' ' < c) :
    ∃ l m r, text = l ++ m ++ r ∧ BlankEdges l m r := by
  obtain ⟨l, a, d, rfl, hl, ha⟩ := exists_first_above h
  -- From behind, the first such character is `a` or one that comes after it.
  have hbehind : ∃ c ∈ (a :: d).reverse, ' ' < c := ⟨a, by simp, ha⟩
  obtain ⟨r, b, e, hcut, hr, hb⟩ := exists_first_above hbehind
  have hmiddle : a :: d = (b :: e).reverse ++ r.reverse := by
    rw [← List.reverse_append, ← hcut, List.reverse_reverse]
  have hhead := congrArg List.head? hmiddle
  rw [List.head?_append_of_ne_nil _ (by simp)] at hhead
  refine ⟨l, (b :: e).reverse, r.reverse, by rw [hmiddle, List.append_assoc], ?_⟩
  exact
    { left := hl
      first := ⟨a, hhead.symm, ha⟩
      last := ⟨b, by simp, hb⟩
      right := fun c hc => hr c (List.mem_reverse.mp hc) }

/-! ## Trimming -/

/-- What is left is what lies between the edges. -/
theorem trim_of_blankEdges (hs : s.WellPlaced) (htext : s.text = l ++ m ++ r)
    (h : BlankEdges l m r) :
    s.trim = if l = [] ∧ r = [] then s else s.derive (byteLength l) (byteLength (l ++ m)) := by
  have hleft : s.text.takeWhile isTrimmed = l := by rw [htext, h.takeWhile_eq]
  have hright : s.text.reverse.takeWhile isTrimmed = r.reverse := by
    rw [htext, List.reverse_append, List.reverse_append, ← List.append_assoc,
      h.reverse.takeWhile_eq]
  have hlen : s.length = byteLength (l ++ m) + byteLength r := by
    rw [hs.length_eq, htext, Text.byteLength_append]
  have hstop : max (byteLength l) (s.length - byteLength r) = byteLength (l ++ m) := by
    rw [hlen, Nat.add_sub_cancel, Text.byteLength_append]
    exact Nat.max_eq_right (Nat.le_add_right _ _)
  have hnone : byteLength l = 0 ∧ byteLength (l ++ m) = s.length ↔ l = [] ∧ r = [] := by
    rw [hlen, ← Text.byteLength_eq_zero, ← Text.byteLength_eq_zero]
    omega
  simp only [trim, hleft, hright, Text.byteLength_reverse, hstop, hnone]

/-- Of nothing but blanks, the empty segment past the end is left. -/
theorem trim_of_all_blank (hs : s.WellPlaced) (h : ∀ c ∈ s.text, c ≤ ' ') :
    s.trim = if s.text = [] then s else s.tail := by
  have hleft : s.text.takeWhile isTrimmed = s.text :=
    List.takeWhile_eq_self_iff.mpr fun c hc => isTrimmed_iff.mpr (h c hc)
  have hstop : max (byteLength s.text) (s.length - byteLength (s.text.reverse.takeWhile isTrimmed))
      = s.length := by
    rw [hs.length_eq]
    exact Nat.max_eq_left (Nat.sub_le _ _)
  simp only [trim, hleft, hstop, and_true, Text.byteLength_eq_zero]
  rw [← hs.length_eq, tail]

/-- A segment without blank edges is left as it is. -/
theorem trim_eq_self (hs : s.WellPlaced) (h : s.text = [] ∨ BlankEdges [] s.text []) :
    s.trim = s := by
  rcases h with hnil | h
  · rw [trim_of_all_blank hs (by simp [hnil]), if_pos hnil]
  · rw [trim_of_blankEdges hs (by simp) h, if_pos ⟨rfl, rfl⟩]

/-- What trimming leaves has no blank edges. -/
theorem text_trim (hs : s.WellPlaced) :
    s.trim.text = [] ∨ BlankEdges [] s.trim.text [] := by
  by_cases hblank : ∀ c ∈ s.text, c ≤ ' '
  · left
    rw [trim_of_all_blank hs hblank]
    split_ifs with hnil
    · exact hnil
    · rw [tail, hs.length_eq]
      exact (empty_derive hs (List.append_nil _).symm).2
  · right
    simp only [not_forall, Char.not_le] at hblank
    obtain ⟨c, hc, habove⟩ := hblank
    obtain ⟨l, m, r, htext, h⟩ := exists_blankEdges ⟨c, hc, habove⟩
    have hm : BlankEdges [] m [] := ⟨by simp, h.first, h.last, by simp⟩
    rw [trim_of_blankEdges hs htext h]
    split_ifs with hnone
    · obtain ⟨rfl, rfl⟩ := hnone
      rw [htext]
      simpa using hm
    · rw [hs.text_derive htext]
      exact hm

/-- All of a segment, cut out of it, is alike to it. -/
theorem derive_all_alike (hs : s.WellPlaced) : (s.derive 0 (byteLength s.text)).Alike s := by
  have hall : s.text = [] ++ s.text ++ [] := by simp
  have hpart := (isCut_derive_of_cut hall).wellPlaced hs
  have htext := hs.text_derive hall
  exact (hpart.alike_iff hs htext rfl).mpr (positionAt_zero hs)

/-- The empty segment past the end of a segment that has characters is one column past the last of
them. -/
theorem Reachable.tail_past_last {d : Document} (hs : Reachable d s) (hcols : d.ColumnsFit)
    (hne : s.isEmpty = false) :
    s.tail.isEmpty = true ∧ ∃ l c q, s.text = l ++ [c] ∧
      d.positionAt? (s.startOffset + byteLength l) = some q ∧
      s.tail.start = ⟨q.line, q.col + 1⟩ := by
  obtain ⟨hplaced, -⟩ := hs.wellPlaced
  obtain ⟨-, ⟨l, c, q, htext, hq, hstop⟩, -⟩ := hs.positions_of_nonempty hcols hne
  refine ⟨beq_self_eq_true _, l, c, q, htext, hq, ?_⟩
  have hpast := positionAt_eq_pastEnd hplaced (by simp [htext])
  rw [← hplaced.length_eq] at hpast
  change s.positionAt s.length = _
  rw [hpast, pastEnd, hstop]
  rfl

/-- The segment `t` is `s` without its blank edges. -/
structure Stripped (s t : Segment) : Prop where
  /-- If not all of `s` is blank, it is alike to the part that lies between the edges, and at the
  same place. -/
  between : (∃ c ∈ s.text, ' ' < c) → ∃ l m r u, s.text = l ++ m ++ r ∧ BlankEdges l m r ∧
    s.substring (byteLength l) (byteLength (l ++ m)) = .ok u ∧ t.Alike u ∧
    t.startOffset = u.startOffset ∧ t.stopOffset = u.stopOffset
  /-- If all of it is, `t` is the empty segment at its end, one column past the last character. -/
  pastEnd : s.isEmpty = false → (∀ c ∈ s.text, c ≤ ' ') → t = s.tail ∧ t.isEmpty = true ∧
    ∃ l c q, s.text = l ++ [c] ∧ s.document.positionAt? (s.startOffset + byteLength l) = some q ∧
      t.start = ⟨q.line, q.col + 1⟩
  /-- A segment without characters is left as it is. -/
  empty : s.isEmpty = true → t = s
  /-- So is one whose edges are not blank, be it the root or a part. -/
  kept : BlankEdges [] s.text [] → t = s
  /-- Nothing more is stripped the next time. -/
  again : t.trim = t

/-- Trimming strips what is blank at the edges of a segment and nothing else. -/
theorem Reachable.trim_strips {d : Document} (hs : Reachable d s) (hcols : d.ColumnsFit) :
    s.Stripped s.trim := by
  obtain ⟨hplaced, rfl⟩ := hs.wellPlaced
  refine
    { between := fun habove => ?_
      pastEnd := fun hne hblank => ?_
      empty := fun he => trim_eq_self hplaced (.inl (hplaced.isEmpty_iff.mp he))
      kept := fun h => trim_eq_self hplaced (.inr h)
      again := ?_ }
  · obtain ⟨l, m, r, htext, h⟩ := exists_blankEdges habove
    refine ⟨l, m, r, _, htext, h, substring_of_cut hplaced htext, ?_⟩
    rw [trim_of_blankEdges hplaced htext h]
    split_ifs with hnone
    · -- The part is all of the segment, which is left as it is.
      obtain ⟨rfl, rfl⟩ := hnone
      have hall : s.text = m := by simpa using htext
      rw [List.nil_append, Text.byteLength_nil, ← hall]
      refine ⟨(derive_all_alike hplaced).symm, rfl, ?_⟩
      have hle : s.startOffset ≤ s.stopOffset := (hs.sound hcols).offsets_le
      change s.stopOffset = s.startOffset + byteLength s.text
      rw [← hplaced.length_eq, length, Nat.add_sub_cancel' hle]
    · exact ⟨⟨rfl, rfl, rfl, rfl⟩, rfl, rfl⟩
  · have hnil : s.text ≠ [] := fun hnil => by simp [hplaced.isEmpty_iff.mpr hnil] at hne
    rw [trim_of_all_blank hplaced hblank, if_neg hnil]
    exact ⟨rfl, hs.tail_past_last hcols hne⟩
  · have hplaced' := (Reachable.step hs .trim).wellPlaced.1
    exact trim_eq_self hplaced' (text_trim hplaced)

/-- Of a line break between blanks, what is left is past the last blank, in the line that the break
leads to. -/
theorem trim_strips_line_break :
    (ofText " \r\n\t".toList [] ⟨0, 0⟩).Stripped (ofText " \r\n\t".toList [] ⟨0, 0⟩).trim ∧
      (ofText " \r\n\t".toList [] ⟨0, 0⟩).trim.start = ⟨1, 1⟩ :=
  ⟨Reachable.trim_strips (.root (d := ⟨" \r\n\t".toList, [], ⟨0, 0⟩⟩)) (by decide), by decide⟩

end SourceText.Segment
