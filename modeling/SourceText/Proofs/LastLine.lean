import SourceText.Proofs.LineBreak

/-!
# The last line of a text

Where a walk through a text ends is told by the breaks that a scan finds in it: as many lines down
as there are breaks, and as many columns along as there are characters behind the last of them
(`exists_endsInLine`). A text can be scanned in parts if no break reaches from one into the next
(`scan_append`). At a cut between the two characters of a break that is so for all before the
carriage return, which then counts for a column (`settled`, `advance_settled`).
-/

namespace SourceText

open Text (byteLength utf8)

namespace LineBreak

/-- An encoding has as many bytes as its text is long. -/
theorem length_utf8 (t : Text) : (utf8 t).length = byteLength t := by
  induction t with
  | nil => rfl
  | cons c t ih =>
    rw [utf8_cons, List.length_append, String.length_utf8EncodeChar, ih, Text.byteLength_cons]

/-- Bytes are put together as texts are. -/
@[simp] theorem utf8_append (a b : Text) : utf8 (a ++ b) = utf8 a ++ utf8 b :=
  List.flatMap_append

/-- A text starts with the byte of a line feed when it starts with a line feed. -/
theorem head?_utf8 (t : Text) : (utf8 t).head? = some 10 ↔ t.head? = some '\n' := by
  constructor
  · intro h
    exact Decidable.byContradiction fun hne => head?_utf8_ne hne h
  · intro h
    obtain ⟨t, rfl⟩ := List.head?_eq_some_iff.mp h
    rfl

/-- A text ends with the byte of a carriage return when it ends with a carriage return. -/
theorem getLast?_utf8 (t : Text) : (utf8 t).getLast? = some 13 ↔ t.getLast? = some '\r' := by
  rcases List.eq_nil_or_concat t with rfl | ⟨t, c, rfl⟩
  · simp
  · have hencoding : utf8 [c] = String.utf8EncodeChar c := List.append_nil _
    have hlast := List.getLast?_eq_some_getLast (String.utf8EncodeChar_ne_nil (c := c))
    rw [List.concat_eq_append, utf8_append, hencoding, List.getLast?_append, hlast,
      Option.some_or, ← hlast, List.getLast?_concat]
    by_cases hr : c = '\r'
    · rw [hr]
      exact iff_of_true rfl rfl
    · refine iff_of_false (fun h => ?_) (fun h => hr (Option.some.inj h))
      -- Its last byte is that of another character.
      by_cases hn : c = '\n'
      · rw [hn] at h
        exact absurd (Option.some.inj h) (by decide)
      · exact (ne_of_mem_encoding hn hr 13 (List.mem_of_getLast? h)).2 rfl

/-- There are no more breaks than characters. -/
theorem length_scan_le (offset : Nat) (t : Text) : (scan offset (utf8 t)).length ≤ t.length := by
  induction t using byBreaks generalizing offset with
  | nil => exact Nat.le_refl _
  | other c t hn hr ih =>
    rw [scan_other hn hr]
    exact Nat.le_succ_of_le (ih _)
  | lineFeed t ih =>
    rw [scan_lineFeed]
    exact Nat.succ_le_succ (ih _)
  | pair t ih =>
    rw [scan_pair]
    exact Nat.succ_le_succ (Nat.le_succ_of_le (ih _))
  | ret t ht ih =>
    rw [scan_return ht]
    exact Nat.succ_le_succ (ih _)

/-- A text has no more breaks than one that goes on behind it. -/
theorem length_spans_append_le (a t : Text) : (spans a).length ≤ (spans (a ++ t)).length := by
  have ha := line_advance_eq ⟨0, 0⟩ a
  have hat := line_advance_eq ⟨0, 0⟩ (a ++ t)
  simp only [Nat.zero_add] at ha hat
  rw [← ha, ← hat]
  rcases List.eq_nil_or_concat a with rfl | ⟨a, c, rfl⟩
  · exact Nat.zero_le _
  · rw [List.concat_eq_append, Position.advance_concat, List.append_assoc]
    -- The last character alone may be a break, but then it is one with what follows too.
    rcases Position.after_eq ((⟨0, 0⟩ : Position).advance a (some c)) c none with h | ⟨hc, h⟩
    · rw [h]
      exact Position.line_advance_le _ a (c :: t)
    · rw [h]
      exact Position.line_advance_lt_of_break _ a t hc

/-! ## Cuts that no break straddles -/

/-- No break of `a ++ t` has its first character at the end of `a` and its second in `t`. -/
def Apart (a t : Text) : Prop := ¬ (a.getLast? = some '\r' ∧ t.head? = some '\n')

/-- No break straddles a cut in front of a carriage return. -/
theorem apart_return (a t : Text) : Apart a ('\r' :: t) := by
  rintro ⟨-, hhead⟩
  simp at hhead

/-- A text that is cut where no break straddles can be scanned in two parts. -/
theorem scan_append {a t : Text} (h : Apart a t) (offset : Nat) :
    scan offset (utf8 (a ++ t)) =
      scan offset (utf8 a) ++ scan (offset + byteLength a) (utf8 t) := by
  have hbehind : ∀ {x a : Text}, Apart (x ++ a) t → Apart a t :=
    fun h hstraddle => h ⟨by simp [hstraddle.1], hstraddle.2⟩
  induction a using byBreaks generalizing offset with
  | nil => rfl
  | other c a hn hr ih =>
    rw [List.cons_append, scan_other hn hr, scan_other hn hr, ih (hbehind (x := [c]) h),
      Text.byteLength_cons, Nat.add_assoc]
  | lineFeed a ih =>
    rw [List.cons_append, scan_lineFeed, scan_lineFeed, ih (hbehind (x := ['\n']) h),
      List.cons_append, Text.byteLength_cons, Nat.add_assoc]
    rfl
  | pair a ih =>
    rw [List.cons_append, List.cons_append, scan_pair, scan_pair,
      ih (hbehind (x := ['\r', '\n']) h), List.cons_append, Text.byteLength_cons,
      Text.byteLength_cons, ← Nat.add_assoc, ← Nat.add_assoc]
    rfl
  | ret a ha ih =>
    -- What follows the carriage return is in `a`, or it is the first character of `t`.
    have hnext : (a ++ t).head? ≠ some '\n' := by
      cases a with
      | nil => exact fun ht => h ⟨rfl, ht⟩
      | cons d a => exact ha
    rw [List.cons_append, scan_return hnext, scan_return ha, ih (hbehind (x := ['\r']) h),
      List.cons_append, Text.byteLength_cons, Nat.add_assoc]
    rfl

/-- A walk up to a cut that no break straddles need not be told what follows. -/
theorem advance_of_apart {a t : Text} (h : Apart a t) (p : Position) :
    p.advance a t.head? = p.advance a none := by
  rcases List.eq_nil_or_concat a with rfl | ⟨a, c, rfl⟩
  · rfl
  · rw [List.concat_eq_append] at h ⊢
    rw [Position.advance_concat, Position.advance_concat]
    have hc : c = '\r' → t.head? ≠ some '\n' := fun hc ht => h ⟨by simp [hc], ht⟩
    have hiff : (c = '\r' ∧ t.head? ≠ some '\n') ↔ c = '\r' := and_iff_left_of_imp hc
    simp [Position.after, hiff]

/-- A walk that is not told what follows may take half of a break for a whole one, but it is at no
later column for that. -/
theorem col_advance_none_le (p : Position) (a : Text) (next? : Option Char) :
    (p.advance a none).col ≤ (p.advance a next?).col := by
  rcases List.eq_nil_or_concat a with rfl | ⟨a, c, rfl⟩
  · exact Nat.le_refl _
  · rw [List.concat_eq_append, Position.advance_concat, Position.advance_concat]
    rcases Position.after_eq (p.advance a (some c)) c next? with h | ⟨hc, h⟩
    · rw [h]
      exact Position.col_advance_le _ [c] none
    · have hnone : (p.advance a (some c)).after c none = ⟨(p.advance a (some c)).line + 1, 0⟩ :=
        if_pos (hc.imp_right fun hr => ⟨hr, by simp⟩)
      rw [hnone]
      exact Nat.zero_le _

/-! ## The last line -/

/-- Where the last of some breaks stops. -/
def lastStop? (breaks : List Span) : Option Nat := breaks.getLast?.map Span.stop

/-- The last break stops where the last of the rest does, if there is more than one. -/
theorem lastStop?_cons (b : Span) (rest : List Span) :
    lastStop? (b :: rest) = (lastStop? rest).or (some b.stop) := by
  rw [lastStop?, lastStop?, List.getLast?_cons]
  cases rest.getLast? <;> rfl

/-- The last line of `x ++ y` is in `y`. Either there is no break, and a walk from `p` goes on in
its line, or the last break stops behind `x`, and the walk comes to the column behind `y`. -/
def EndsInLine (p : Position) (offset : Nat) (x y : Text) : Prop :=
  (x = [] ∧ scan offset (utf8 y) = [] ∧ (p.advance y none).col = p.col + y.length) ∨
    (lastStop? (scan offset (utf8 (x ++ y))) = some (offset + byteLength x) ∧
      (p.advance (x ++ y) none).col = y.length)

/-- Behind a break the walk stands at the start of a line, where it goes on as it would from any
other. -/
theorem EndsInLine.afterBreak {p : Position} {offset : Nat} {b x y : Text}
    (h : EndsInLine ⟨p.line + 1, 0⟩ (offset + byteLength b) x y)
    (hscan : scan offset (utf8 (b ++ (x ++ y))) =
      ⟨offset, offset + byteLength b⟩ :: scan (offset + byteLength b) (utf8 (x ++ y)))
    (hwalk : p.advance (b ++ (x ++ y)) none =
      (⟨p.line + 1, 0⟩ : Position).advance (x ++ y) none) : EndsInLine p offset (b ++ x) y := by
  right
  rw [List.append_assoc, hscan, hwalk]
  rcases h with ⟨rfl, hnone, hcol⟩ | ⟨hlast, hcol⟩
  · -- The break is the last one.
    rw [List.nil_append] at *
    refine ⟨by simp [lastStop?, hnone], ?_⟩
    rw [hcol, Nat.zero_add]
  · refine ⟨?_, hcol⟩
    rw [lastStop?_cons, hlast, Text.byteLength_append, Nat.add_assoc]
    rfl

/-- Every text has a last line. -/
theorem exists_endsInLine (p : Position) (offset : Nat) (a : Text) :
    ∃ x y, a = x ++ y ∧ EndsInLine p offset x y := by
  induction a using byBreaks generalizing p offset with
  | nil => exact ⟨[], [], rfl, .inl ⟨rfl, rfl, rfl⟩⟩
  | other c a hn hr ih =>
    obtain ⟨x, y, rfl, h⟩ := ih ⟨p.line, p.col + 1⟩ (offset + c.utf8Size)
    have hafter : ∀ next?, p.after c next? = ⟨p.line, p.col + 1⟩ := by
      simp [Position.after, hn, hr]
    -- The character is on the last line if there is no break behind it.
    rcases h with ⟨rfl, hscan, hcol⟩ | ⟨hlast, hcol⟩
    · refine ⟨[], c :: y, rfl, .inl ⟨rfl, ?_, ?_⟩⟩
      · rw [scan_other hn hr, hscan]
      · rw [Position.advance_cons, hafter, hcol, List.length_cons]
        simp only
        omega
    · refine ⟨c :: x, y, rfl, .inr ⟨?_, ?_⟩⟩
      · rw [List.cons_append, scan_other hn hr, hlast, Text.byteLength_cons, Nat.add_assoc]
      · rw [List.cons_append, Position.advance_cons, hafter, hcol]
  | lineFeed a ih =>
    obtain ⟨x, y, rfl, h⟩ := ih ⟨p.line + 1, 0⟩ (offset + 1)
    refine ⟨['\n'] ++ x, y, rfl, .afterBreak h (scan_lineFeed _ _) ?_⟩
    simp [Position.advance_cons, Position.after]
  | pair a ih =>
    obtain ⟨x, y, rfl, h⟩ := ih ⟨p.line + 1, 0⟩ (offset + 2)
    refine ⟨['\r', '\n'] ++ x, y, rfl, .afterBreak h (scan_pair _ _) ?_⟩
    simp [Position.advance_cons, Position.after]
  | ret a ha ih =>
    obtain ⟨x, y, rfl, h⟩ := ih ⟨p.line + 1, 0⟩ (offset + 1)
    refine ⟨['\r'] ++ x, y, rfl, .afterBreak h (scan_return ha _) ?_⟩
    have hafter : p.after '\r' (x ++ y).head? = ⟨p.line + 1, 0⟩ := if_pos (.inr ⟨rfl, ha⟩)
    rw [List.singleton_append, Position.advance_cons, Option.or_none, hafter]

/-! ## Cuts within a break -/

/-- The part of `l` that can be scanned before what follows it: all of it, or all but a carriage
return whose line feed is the first character of `r`. -/
def settled (l r : Text) : Text :=
  if l.getLast? = some '\r' ∧ r.head? = some '\n' then l.dropLast else l

/-- What `settled` leaves out is in front of a line feed, and no break straddles the cut that it
makes. -/
theorem exists_held (l r : Text) :
    ∃ b, l = settled l r ++ b ∧ Apart (settled l r) (b ++ r) ∧
      (b = [] ∨ b = ['\r'] ∧ r.head? = some '\n') := by
  unfold settled
  split_ifs with h
  · obtain ⟨l, rfl⟩ := List.getLast?_eq_some_iff.mp h.1
    exact ⟨['\r'], by simp, apart_return _ r, .inr ⟨rfl, h.2⟩⟩
  · exact ⟨[], by simp, h, .inl rfl⟩

/-- At a cut within a break the walk is one column behind the text in front of the break. -/
theorem advance_settled (p : Position) {l r b : Text} (hl : l = settled l r ++ b)
    (hapart : Apart (settled l r) (b ++ r)) (hb : b = [] ∨ b = ['\r'] ∧ r.head? = some '\n') :
    p.advance l r.head? = ⟨(p.advance (settled l r) none).line,
      (p.advance (settled l r) none).col + b.length⟩ := by
  generalize settled l r = a at *
  subst hl
  rw [← advance_of_apart hapart]
  rcases hb with rfl | ⟨rfl, hhead⟩
  · simp
  · rw [Position.advance_concat, hhead]
    simp [Position.after]

/-- What is settled at a cut is settled at all later ones, and no break straddles its end. -/
theorem exists_settled_append (l m r : Text) :
    ∃ k, settled (l ++ m) r = settled l (m ++ r) ++ k ∧ Apart (settled l (m ++ r)) k := by
  obtain ⟨b, hl, hapart, hb⟩ := exists_held l (m ++ r)
  obtain ⟨b', hl', -, hb'⟩ := exists_held (l ++ m) r
  have hle : byteLength (settled l (m ++ r)) ≤ byteLength (settled (l ++ m) r) := by
    rcases List.eq_nil_or_concat m with rfl | ⟨m, c, rfl⟩
    · simp
    · -- At least one byte is between the cuts, and not more than one is held back.
      have hc := c.utf8Size_pos
      have hbytes := congrArg byteLength hl
      have hbytes' := congrArg byteLength hl'
      have hheld : byteLength b' ≤ 1 := by
        rcases hb' with rfl | ⟨rfl, -⟩
        · exact Nat.zero_le _
        · exact Nat.le_refl _
      simp only [List.concat_eq_append, Text.byteLength_append, Text.byteLength_cons] at *
      omega
  have htext : settled l (m ++ r) ++ (b ++ (m ++ r)) = settled (l ++ m) r ++ (b' ++ r) := by
    rw [← List.append_assoc, ← hl, ← List.append_assoc, ← List.append_assoc, ← hl']
  obtain ⟨k, hk, hrest⟩ := Text.exists_middle htext hle
  refine ⟨k, hk, fun h => hapart ⟨h.1, ?_⟩⟩
  obtain ⟨k, rfl⟩ := List.head?_eq_some_iff.mp h.2
  rw [hrest]
  rfl

/-- From one cut to a later one a walk goes on by the breaks in what is settled between them: one
line for each and, behind the last of them, one column for each character, with what is held back.
-/
theorem exists_settled_between (p : Position) (l m r : Text) :
    ∃ k, settled (l ++ m) r = settled l (m ++ r) ++ k ∧
      (p.advance (l ++ m) r.head?).line = (p.advance l (m ++ r).head?).line + (spans k).length ∧
      ((lastStop? (spans k) = none ∧
          (p.advance (l ++ m) r.head?).col = (p.advance l (m ++ r).head?).col + m.length) ∨
        ∃ x y, l ++ m = settled l (m ++ r) ++ x ++ y ∧ lastStop? (spans k) = some (byteLength x) ∧
          (p.advance (l ++ m) r.head?).col = y.length) := by
  -- `b` and `b'` are held back at the first cut and at the second.
  obtain ⟨k, hk, hk'⟩ := exists_settled_append l m r
  obtain ⟨b, hl, hapart, hb⟩ := exists_held l (m ++ r)
  obtain ⟨b', hl', hapart', hb'⟩ := exists_held (l ++ m) r
  have hwalk := advance_settled p hl hapart hb
  have hwalk' := advance_settled p hl' hapart' hb'
  rw [hk] at hl' hwalk'
  refine ⟨k, hk, ?_⟩
  generalize settled l (m ++ r) = a at *
  -- The lines that are counted are those of a walk over `k`.
  have hstep : p.advance (a ++ k) none = (p.advance a none).advance k none := by
    rw [Position.advance_append, Option.or_none, advance_of_apart hk']
  rw [hwalk, hwalk', hstep]
  generalize p.advance a none = q
  refine ⟨line_advance_eq q k, ?_⟩
  obtain ⟨x, y, rfl, ⟨rfl, hnone, hy⟩ | ⟨hlast, hy⟩⟩ := exists_endsInLine q 0 k
  · -- The walk is still on its line.
    left
    rw [List.nil_append] at *
    have hchars := congrArg List.length hl'
    rw [hl] at hchars
    simp only [List.length_append] at hchars
    refine ⟨by simp [spans, hnone, lastStop?], ?_⟩
    simp only [hy]
    omega
  · -- It has come to the line `y`, and to what is held back behind that.
    right
    refine ⟨x, y ++ b', ?_, ?_, ?_⟩
    · rw [hl']
      simp
    · rw [spans, hlast, Nat.zero_add]
    · rw [hy, List.length_append]

end LineBreak

end SourceText
