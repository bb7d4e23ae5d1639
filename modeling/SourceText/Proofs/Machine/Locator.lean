import SourceText.Proofs.LastLine
import SourceText.Proofs.Machine.Basic

/-!
# Positions on the machine

The machine finds positions by scanning for line breaks: it counts those that it passes, and the
characters behind the last one. `Machine.endPosition` does so for the end of a text. A `Locator`
does it in steps, from one offset to a later one; where an offset cuts a break in two, the break is
left for the next step, so the scan may be one byte behind. `Locator.past` is the state that any
steps lead to at a cut of the text, and it depends on the cut alone (`Locator.advanceTo_past`). It
is reached if the machine can count to the position there, and otherwise the step meets a number
that is no count (`Locator.advanceTo_past_meets`).
-/

namespace SourceText

open Text (byteLength utf8)
open LineBreak (scan settled lastStop?)

/-- The machine can count to a position. -/
structure Position.Counted (p : Position) : Prop where
  /-- It can count the lines in front of it, -/
  line : p.line ≤ maxCount
  /-- and the characters in front of it on its line. -/
  col : p.col ≤ maxCount

instance (p : Position) : Decidable p.Counted :=
  decidable_of_iff (p.line ≤ maxCount ∧ p.col ≤ maxCount)
    ⟨fun h => ⟨h.1, h.2⟩, fun h => ⟨h.line, h.col⟩⟩

namespace Machine

/-! ## Slices -/

/-- The text between two offsets, empty unless they are boundaries in order. -/
def slice (text : Text) (start stop : Nat) : Machine Text :=
  match Text.slice? text start stop with
  | some t => pure t
  | none => do
    fault .slice
    return []

/-- A slice between any other offsets than boundaries in order is met as a fault. -/
theorem slice_meets_iff (text : Text) (start stop : Nat) :
    (slice text start stop).Meets .slice ↔ Text.slice? text start stop = none := by
  unfold slice
  cases Text.slice? text start stop with
  | none => exact iff_of_true (meets_fault _ _) rfl
  | some t => exact iff_of_false (not_meets_pure _ _) (by simp)

/-- Between two cuts of a text there is what lies between them. -/
theorem slice_append (l m r : Text) :
    slice (l ++ m ++ r) (byteLength l) (byteLength (l ++ m)) = pure m := by
  rw [slice, Text.slice?_eq_some_iff.mpr ⟨l, r, rfl, rfl, rfl⟩]

/-- The slice of a text that is cut in three, by its offsets. -/
theorem slice_eq {text l m r : Text} {start stop : Nat} (h : text = l ++ m ++ r)
    (hstart : byteLength l = start) (hstop : byteLength (l ++ m) = stop) :
    slice text start stop = pure m := by
  rw [h, ← hstart, ← hstop, slice_append]

/-- The number of characters between two offsets. -/
def charCount (text : Text) (start stop : Nat) : Machine Nat := do
  return (← slice text start stop).length

/-! ## Breaks -/

/-- The breaks in bytes of which the first has offset `offset`. -/
def breaks (offset : Nat) : List UInt8 → Machine (List Span)
  | [] => pure []
  | [b] => do
    let next ← add offset 1
    return if b = 10 ∨ b = 13 then [⟨offset, next⟩] else []
  | b :: b' :: rest => do
    let next ← add offset 1
    if b = 10 then return ⟨offset, next⟩ :: (← breaks next (b' :: rest))
    else if b = 13 then
      if b' = 10 then
        let next ← add next 1
        return ⟨offset, next⟩ :: (← breaks next rest)
      else return ⟨offset, next⟩ :: (← breaks next (b' :: rest))
    else breaks next (b' :: rest)

/-- The machine scans for breaks as the text says, as long as offsets are counts. -/
theorem breaks_eq {offset : Nat} {bytes : List UInt8} (h : offset + bytes.length ≤ maxCount) :
    breaks offset bytes = pure (scan offset bytes) := by
  fun_induction scan offset bytes with
  | case1 => rfl
  | case2 | case3 =>
    rename_i offset b hb
    rw [breaks, add_eq (by simpa using h), pure_bind]
    simp [hb]
  | case4 =>
    rename_i ih
    simp only [List.length_cons] at h ih
    rw [breaks, add_eq (by omega), pure_bind, if_pos rfl, ih (by omega), pure_bind]
  | case5 =>
    rename_i ih
    simp only [List.length_cons] at h
    rw [breaks, add_eq (by omega), pure_bind, if_neg (by decide), if_pos rfl, if_pos rfl,
      add_eq (by omega), pure_bind, ih (by omega), pure_bind]
  | case6 =>
    rename_i hb' _ ih
    simp only [List.length_cons] at h ih
    rw [breaks, add_eq (by omega), pure_bind, if_neg (by decide), if_pos rfl, if_neg hb',
      ih (by omega), pure_bind]
  | case7 =>
    rename_i hn hr ih
    simp only [List.length_cons] at h ih
    rw [breaks, add_eq (by omega), pure_bind, if_neg hn, if_neg hr, ih (by omega)]

/-- The breaks of a text that is no longer than the machine can count. -/
theorem breaks_utf8 {text : Text} (h : byteLength text ≤ maxCount) :
    breaks 0 (utf8 text) = pure (scan 0 (utf8 text)) :=
  breaks_eq (by rwa [Nat.zero_add, LineBreak.length_utf8])

/-- Passes the breaks that stop before offset `limit`, counting lines from `line` on. The answer is
the last line, and where it starts if a break has been passed. -/
def passBreaks (limit line : Nat) (lineStart : Option Nat) :
    List Span → Machine (Nat × Option Nat)
  | [] => pure (line, lineStart)
  | b :: rest => do
    if limit ≤ b.stop then return (line, lineStart)
    else passBreaks limit (← add line 1) (some b.stop) rest

/-- Of breaks in order, those that stop before the limit are passed. -/
theorem passBreaks_comesTo (line : Nat) (lineStart : Option Nat) {limit : Nat}
    {passed rest : List Span}
    (hpassed : ∀ b ∈ passed, b.stop < limit) (hrest : ∀ b ∈ rest, limit ≤ b.stop) :
    (passBreaks limit line lineStart (passed ++ rest)).ComesTo
      (passed = [] ∨ line + passed.length ≤ maxCount)
      (line + passed.length, (lastStop? passed).or lineStart) := by
  induction passed generalizing line lineStart with
  | nil =>
    cases rest with
    | nil => exact .pure _
    | cons b rest =>
      rw [List.nil_append, passBreaks, if_pos (hrest b List.mem_cons_self)]
      exact .pure _
  | cons b passed ih =>
    rw [List.forall_mem_cons] at hpassed
    have hvalue : (line + 1 + passed.length, (lastStop? passed).or (some b.stop)) =
        (line + (b :: passed).length, (lastStop? (b :: passed)).or lineStart) := by
      rw [LineBreak.lastStop?_cons, Option.or_assoc, Option.some_or, List.length_cons,
        Nat.add_right_comm, Nat.add_assoc]
    have hnext : b :: passed = [] ∨ line + (b :: passed).length ≤ maxCount →
        line + 1 + passed.length ≤ maxCount := by
      simp only [reduceCtorEq, false_or, List.length_cons]
      omega
    rw [List.cons_append, passBreaks, if_neg (Nat.not_le.mpr hpassed.1), ← hvalue]
    exact ((add_comesTo line 1).mono fun h => by have := hnext h; omega).bind
      ((ih _ _ hpassed.2).mono fun h => .inr (hnext h))

/-- The count of lines stops where it gets too great. -/
theorem passBreaks_meets {limit line : Nat} {lineStart : Option Nat} {passed rest : List Span}
    (hpassed : ∀ b ∈ passed, b.stop < limit) (hfrom : line ≤ maxCount)
    (hline : maxCount < line + passed.length) :
    (passBreaks limit line lineStart (passed ++ rest)).Meets .count := by
  induction passed generalizing line lineStart with
  | nil => exact absurd hline (Nat.not_lt.mpr hfrom)
  | cons b passed ih =>
    rw [List.forall_mem_cons] at hpassed
    rw [List.length_cons] at hline
    rw [List.cons_append, passBreaks, if_neg (Nat.not_le.mpr hpassed.1)]
    by_cases hnext : line + 1 ≤ maxCount
    · rw [add_eq hnext, pure_bind]
      exact ih hpassed.2 hnext (by omega)
    · exact (add_meets (Nat.not_le.mp hnext)).bind

/-! ## The end of a text -/

/-- Where a text ends that starts at `p`. -/
def endPosition (text : Text) (p : Position) : Machine EndPosition := do
  let length := byteLength text
  let (line, lineStart?) ← passBreaks length p.line none (← breaks 0 (utf8 text))
  let columns ← match lineStart? with
    | some lineStart => do pure (signedCol (← charCount text lineStart length))
    | none => pure (min (signedCol p.col + signedCol text.length) maxSignedCol)
  return ⟨line, ← column (columns - 1)⟩

/-- A text that starts at `p` has coordinates that the machine can count, up to its end. -/
structure Fits (text : Text) (p : Position) : Prop where
  /-- A text in memory has no more bytes than the greatest signed column. -/
  bytes : byteLength text ≤ maxSignedCol
  /-- Lines can be counted to the one behind the last break. -/
  line : p.line + (LineBreak.spans text).length ≤ maxCount
  /-- At every cut of the text the column can be counted. -/
  col : ∀ l r, text = l ++ r → (p.advance l r.head?).col ≤ maxCount

/-- The columns of a text can be counted if they could be with all of it on one line. -/
theorem fits_of_length_le {text : Text} {p : Position} (hbytes : byteLength text ≤ maxSignedCol)
    (hline : p.line + (LineBreak.spans text).length ≤ maxCount)
    (hcol : p.col + text.length ≤ maxCount) : Fits text p := by
  refine ⟨hbytes, hline, fun l r htext => ?_⟩
  have hle := p.col_advance_le l r.head?
  rw [htext, List.length_append] at hcol
  omega

/-- The machine can count to each character of a text that starts at `p`. -/
structure CharsCounted (text : Text) (p : Position) : Prop where
  /-- A text in memory has no more bytes than the greatest signed column. -/
  bytes : byteLength text ≤ maxSignedCol
  /-- It can count to the column of the start, -/
  col : p.col ≤ maxCount
  /-- and to the line and the column of each character. -/
  chars : ∀ l c r, text = l ++ c :: r → (p.advance l (some c)).Counted

/-- If a text fits, the machine can count to each character of it. -/
theorem Fits.charsCounted {text : Text} {p : Position} (h : Fits text p) : CharsCounted text p where
  bytes := h.bytes
  col := h.col [] text rfl
  chars := by
    rintro l c r rfl
    have hle := p.line_advance_le l (c :: r)
    rw [LineBreak.line_advance_eq] at hle
    exact ⟨Nat.le_trans hle h.line, h.col l (c :: r) rfl⟩

namespace CharsCounted

variable {p : Position} {l m r : Text}

/-- The position that a walk comes to in front of a character is one from which the machine can
count to what follows. -/
theorem advance (h : CharsCounted (l ++ m ++ r) p) (hne : m ++ r ≠ []) :
    CharsCounted m (p.advance l (m ++ r).head?) where
  bytes := by
    have hbytes := h.bytes
    simp only [Text.byteLength_append] at hbytes
    omega
  col := by
    obtain ⟨c, t, htext⟩ := List.exists_cons_of_ne_nil hne
    rw [htext]
    exact (h.chars l c t (by rw [List.append_assoc, htext])).col
  chars := by
    rintro l' c r' rfl
    have hwalk := h.chars (l ++ l') c (r' ++ r) (by simp)
    rw [Position.advance_append] at hwalk
    simpa [List.head?_append, Option.or_assoc] using hwalk

/-- A text without characters has only a start. -/
theorem nil (h : p.col ≤ maxCount) : CharsCounted [] p where
  bytes := Nat.zero_le _
  col := h
  chars := by simp

end CharsCounted

/-- If the last character finishes a break, with or without one in front, it stops at the end. -/
theorem stop_of_mem_scan_last {b : Text} {c : Char}
    (hb : b = [] ∨ b = ['\r'] ∧ [c].head? = some '\n') {offset : Nat} {s : Span}
    (hs : s ∈ scan offset (utf8 (b ++ [c]))) : s.stop = offset + byteLength (b ++ [c]) := by
  rcases hb with rfl | ⟨rfl, hc⟩
  · rw [List.nil_append] at *
    by_cases hn : c = '\n'
    · rw [hn, LineBreak.scan_lineFeed] at hs
      rw [List.mem_singleton.mp hs, hn]
      rfl
    · by_cases hr : c = '\r'
      · rw [hr, LineBreak.scan_return (by simp)] at hs
        rw [List.mem_singleton.mp hs, hr]
        rfl
      · rw [LineBreak.scan_other hn hr] at hs
        cases hs
  · obtain rfl : c = '\n' := by simpa using hc
    rw [List.singleton_append, LineBreak.scan_pair] at hs
    rw [List.mem_singleton.mp hs]
    rfl

/-- Signed columns are added up to the greatest one. -/
theorem min_signedCol_add (m n : Nat) :
    min (signedCol m + signedCol n) maxSignedCol = signedCol (m + n) := by
  unfold signedCol
  omega

/-- In front of any signed column there is another, or column `-1`. -/
theorem column_signedCol_sub_one (n : Nat) :
    column (signedCol n - 1) = pure (signedCol n - 1) :=
  column_eq (by unfold signedCol; omega) (by unfold signedCol; omega)

/-- The breaks of a text are those that stop in front of its last character, with a carriage return
that it makes a break with left out, and those that stop behind it. -/
theorem exists_breaks_before_last (l : Text) (c : Char) :
    ∃ behind, scan 0 (utf8 (l ++ [c])) = LineBreak.spans (settled l [c]) ++ behind ∧
      (∀ b ∈ LineBreak.spans (settled l [c]), b.stop < byteLength (l ++ [c])) ∧
      ∀ b ∈ behind, byteLength (l ++ [c]) ≤ b.stop := by
  obtain ⟨b, hl, hapart, hb⟩ := LineBreak.exists_held l [c]
  generalize settled l [c] = a at *
  have htext : l ++ [c] = a ++ (b ++ [c]) := by rw [hl, List.append_assoc]
  have hscan := LineBreak.scan_append hapart 0
  rw [← htext, Nat.zero_add] at hscan
  refine ⟨_, hscan, fun s hs => ?_, fun s hs => Nat.le_of_eq ?_⟩
  · have hle := LineBreak.stop_le_of_mem_spans hs
    have hc := c.utf8Size_pos
    rw [htext, Text.byteLength_append, Text.byteLength_append, Text.byteLength_cons]
    omega
  · rw [stop_of_mem_scan_last hb hs, htext, ← Text.byteLength_append]

/-- These are as many as there are lines in front of the last character. -/
theorem line_advance_last (p : Position) (l : Text) (c : Char) :
    (p.advance l (some c)).line = p.line + (LineBreak.spans (settled l [c])).length := by
  obtain ⟨b, hl, hapart, hb⟩ := LineBreak.exists_held l [c]
  rw [← LineBreak.line_advance_eq p (settled l [c]), show some c = [c].head? from rfl,
    LineBreak.advance_settled p hl hapart hb]

/-- The machine finds the end of a text if it can count to its last character. -/
theorem endPosition_comesTo {text : Text} {p : Position} (hbytes : byteLength text ≤ maxSignedCol) :
    (endPosition text p).ComesTo (CharsCounted text p) (.of p text) := by
  have hcount := maxCount_eq
  rw [endPosition, breaks_utf8 (by omega), pure_bind]
  rcases List.eq_nil_or_concat text with rfl | ⟨l, c, rfl⟩
  · have hpass : passBreaks (byteLength []) p.line none (scan 0 (utf8 [])) =
        pure (p.line, none) := rfl
    rw [hpass, pure_bind]
    simp only [pure_bind]
    rw [min_signedCol_add, column_signedCol_sub_one]
    exact .pure _
  · rw [List.concat_eq_append] at *
    obtain ⟨b, hl, hapart, hb⟩ := LineBreak.exists_held l [c]
    obtain ⟨behind, hscan, hpassed, hrest⟩ := exists_breaks_before_last l c
    have hwalk := LineBreak.advance_settled p hl hapart hb
    have hlines := line_advance_last p l c
    have hpass := passBreaks_comesTo p.line none hpassed hrest
    rw [← hlines, Option.or_none, ← hscan] at hpass
    have hsure : CharsCounted (l ++ [c]) p →
        LineBreak.spans (settled l [c]) = [] ∨ (p.advance l (some c)).line ≤ maxCount :=
      fun h => .inr (h.chars l c [] rfl).line
    refine (hpass.mono hsure).bind ?_
    rw [EndPosition.of_concat, show some c = [c].head? from rfl, hwalk]
    generalize settled l [c] = a at *
    obtain ⟨x, y, rfl, ⟨rfl, hnone, hcol⟩ | ⟨hlast, hcol⟩⟩ := LineBreak.exists_endsInLine p 0 a
    · -- All of the text is on the line where it starts.
      rw [List.nil_append] at *
      have hlength : p.col + (l ++ [c]).length = (p.advance y none).col + b.length + 1 := by
        rw [hl, hcol]
        simp only [List.length_append, List.length_singleton]
        omega
      simp only [LineBreak.spans, hnone, lastStop?, List.getLast?_nil, Option.map_none, pure_bind]
      rw [min_signedCol_add, hlength, column_signedCol_sub_one]
      exact .pure _
    · -- The last line of it is `y`, and what follows.
      have hslice : slice (l ++ [c]) (byteLength x) (byteLength (l ++ [c])) =
          pure (y ++ b ++ [c]) :=
        slice_eq (r := []) (by simp [hl]) rfl (by simp [hl])
      have hlength : (y ++ b ++ [c]).length = (p.advance (x ++ y) none).col + b.length + 1 := by
        rw [hcol]
        simp only [List.length_append, List.length_singleton]
      simp only [LineBreak.spans, hlast, Nat.zero_add, charCount, hslice, pure_bind]
      rw [hlength, column_signedCol_sub_one]
      exact .pure _

/-- If it cannot count to the line of the last character, it meets a number that is no count. -/
theorem endPosition_meets {text : Text} {p : Position} (hbytes : byteLength text ≤ maxSignedCol)
    (hfrom : p.line ≤ maxCount) (hline : maxCount < (EndPosition.of p text).line) :
    (endPosition text p).Meets .count := by
  have hcount := maxCount_eq
  rcases List.eq_nil_or_concat text with rfl | ⟨l, c, rfl⟩
  · exact absurd hline (Nat.not_lt.mpr hfrom)
  · rw [List.concat_eq_append] at *
    obtain ⟨behind, hscan, hpassed, -⟩ := exists_breaks_before_last l c
    rw [EndPosition.of_concat, line_advance_last] at hline
    rw [endPosition, breaks_utf8 (by omega), pure_bind, hscan]
    exact (passBreaks_meets hpassed hfrom hline).bind

/-! ## Locators -/

/-- How far the text in front of an offset can be scanned for breaks: up to the offset or, where it
is between the two characters of a break, up to the first of them. -/
def scanLimit (text : Text) (offset : Nat) : Machine Nat :=
  if 0 < offset ∧ (utf8 text)[offset]? = some 10 ∧ (utf8 text)[offset - 1]? = some 13 then
    sub offset 1
  else pure offset

/-- The bytes at a cut tell whether it is between the two characters of a break. -/
theorem splits_pair_iff (l r : Text) :
    (0 < byteLength l ∧ (utf8 (l ++ r))[byteLength l]? = some 10 ∧
      (utf8 (l ++ r))[byteLength l - 1]? = some 13) ↔
        l.getLast? = some '\r' ∧ r.head? = some '\n' := by
  have hlength := LineBreak.length_utf8 l
  have hbehind : (utf8 (l ++ r))[byteLength l]? = (utf8 r).head? := by
    rw [LineBreak.utf8_append, List.getElem?_append_right (by omega), hlength, Nat.sub_self,
      List.head?_eq_getElem?]
  have hbefore (h : 0 < byteLength l) :
      (utf8 (l ++ r))[byteLength l - 1]? = (utf8 l).getLast? := by
    rw [LineBreak.utf8_append, List.getElem?_append_left (by omega), List.getLast?_eq_getElem?,
      hlength]
  rw [hbehind, LineBreak.head?_utf8]
  constructor
  · rintro ⟨hpos, hr, hl⟩
    exact ⟨(LineBreak.getLast?_utf8 l).mp (hbefore hpos ▸ hl), hr⟩
  · rintro ⟨hl, hr⟩
    have hpos : 0 < byteLength l := by
      obtain ⟨l, rfl⟩ := List.getLast?_eq_some_iff.mp hl
      rw [Text.byteLength_append]
      exact Nat.add_pos_right _ (by decide)
    exact ⟨hpos, hr, (hbefore hpos).trans ((LineBreak.getLast?_utf8 l).mpr hl)⟩

/-- The limit is the end of what is settled at the offset. -/
theorem scanLimit_eq {l r : Text} (h : byteLength (l ++ r) ≤ maxCount) :
    scanLimit (l ++ r) (byteLength l) = pure (byteLength (settled l r)) := by
  rw [Text.byteLength_append] at h
  unfold scanLimit settled
  simp only [splits_pair_iff]
  split_ifs with hpair
  · -- The carriage return has one byte.
    have hpos := ((splits_pair_iff l r).mpr hpair).1
    obtain ⟨l, rfl⟩ := List.getLast?_eq_some_iff.mp hpair.1
    rw [sub_eq hpos (by omega), List.dropLast_concat, Text.byteLength_append]
    rfl
  · rfl

/-- Counts lines from `line` on, one for each break of the bytes behind offset `scanned`. The answer
is the last line, and where it starts if there is a break. -/
def countBreaks (scanned line : Nat) (lineStart : Option Nat) :
    List Span → Machine (Nat × Option Nat)
  | [] => pure (line, lineStart)
  | b :: rest => do
    countBreaks scanned (← add line 1) (some (← add scanned b.stop)) rest

/-- The last line is the one that is as many further down as there are breaks. -/
theorem countBreaks_comesTo (line : Nat) (lineStart : Option Nat) {scanned : Nat}
    {breaks : List Span} (hstop : ∀ b ∈ breaks, scanned + b.stop ≤ maxCount) :
    (countBreaks scanned line lineStart breaks).ComesTo
      (breaks = [] ∨ line + breaks.length ≤ maxCount)
      (line + breaks.length, ((lastStop? breaks).map (scanned + ·)).or lineStart) := by
  induction breaks generalizing line lineStart with
  | nil => exact .pure _
  | cons b rest ih =>
    rw [List.forall_mem_cons] at hstop
    have hvalue : (line + 1 + rest.length,
        ((lastStop? rest).map (scanned + ·)).or (some (scanned + b.stop))) =
          (line + (b :: rest).length,
            ((lastStop? (b :: rest)).map (scanned + ·)).or lineStart) := by
      rw [LineBreak.lastStop?_cons, Option.map_or, Option.or_assoc, List.length_cons,
        Nat.add_right_comm, Nat.add_assoc]
      rfl
    have hnext : b :: rest = [] ∨ line + (b :: rest).length ≤ maxCount →
        line + 1 + rest.length ≤ maxCount := by
      simp only [reduceCtorEq, false_or, List.length_cons]
      omega
    rw [countBreaks, ← hvalue]
    refine ((add_comesTo line 1).mono fun h => by have := hnext h; omega).bind ?_
    rw [add_eq hstop.1, pure_bind]
    exact (ih _ _ hstop.2).mono fun h => .inr (hnext h)

/-- The count of lines stops where it gets too great. -/
theorem countBreaks_meets {scanned line : Nat} {lineStart : Option Nat} {breaks : List Span}
    (hfrom : line ≤ maxCount) (hline : maxCount < line + breaks.length)
    (hstop : ∀ b ∈ breaks, scanned + b.stop ≤ maxCount) :
    (countBreaks scanned line lineStart breaks).Meets .count := by
  induction breaks generalizing line lineStart with
  | nil => exact absurd hline (Nat.not_lt.mpr hfrom)
  | cons b rest ih =>
    rw [List.forall_mem_cons] at hstop
    rw [List.length_cons] at hline
    rw [countBreaks]
    by_cases hnext : line + 1 ≤ maxCount
    · rw [add_eq hnext, pure_bind, add_eq hstop.1, pure_bind]
      exact ih hnext (by omega) hstop.2
    · exact (add_meets (Nat.not_le.mp hnext)).bind

end Machine

/-- A walk through a text that goes from one offset to later ones. -/
structure Locator where
  /-- What is walked through. -/
  text : Text
  /-- The offset reached. -/
  offset : Nat
  /-- How far the text has been scanned for breaks. -/
  scanned : Nat
  /-- The position reached. -/
  position : Position
  deriving DecidableEq, Repr

namespace Locator

/-- The walk at the start of a text, which is at position `p`. -/
def start (text : Text) (p : Position) : Locator := ⟨text, 0, 0, p⟩

/-- The walk moved on to a later offset. -/
def advanceTo (t : Locator) (offset : Nat) : Machine Locator := do
  if offset < t.offset then Machine.fault .backward
  let limit := max (← Machine.scanLimit t.text offset) t.scanned
  let found ← Machine.breaks 0 (utf8 (← Machine.slice t.text t.scanned limit))
  let (line, lineStart?) ← Machine.countBreaks t.scanned t.position.line none found
  let col ← match lineStart? with
    | some lineStart => Machine.charCount t.text lineStart offset
    | none => do Machine.add t.position.col (← Machine.charCount t.text t.offset offset)
  return ⟨t.text, offset, limit, ⟨line, col⟩⟩

/-- The walk from `p` that has gone past `l` and has `r` ahead. -/
def past (p : Position) (l r : Text) : Locator :=
  ⟨l ++ r, byteLength l, byteLength (settled l r), p.advance l r.head?⟩

/-- A locator begins past nothing. -/
theorem start_eq_past (text : Text) (p : Position) : start text p = past p [] text := rfl

variable {p : Position} {l m r k : Text}

/-- To a later cut a walk goes by the breaks in what is settled on the way, which is `k`. -/
theorem advanceTo_past_eq (hbytes : byteLength (l ++ m ++ r) ≤ maxSignedCol)
    (hk : settled (l ++ m) r = settled l (m ++ r) ++ k) :
    (past p l (m ++ r)).advanceTo (byteLength (l ++ m)) = do
      let (line, lineStart?) ← Machine.countBreaks (byteLength (settled l (m ++ r)))
        (p.advance l (m ++ r).head?).line none (LineBreak.spans k)
      let col ← match lineStart? with
        | some lineStart => Machine.charCount (l ++ m ++ r) lineStart (byteLength (l ++ m))
        | none => do
          Machine.add (p.advance l (m ++ r).head?).col
            (← Machine.charCount (l ++ m ++ r) (byteLength l) (byteLength (l ++ m)))
      return ⟨l ++ m ++ r, byteLength (l ++ m), byteLength (settled (l ++ m) r), ⟨line, col⟩⟩ := by
  have hcount := Machine.maxCount_eq
  -- What is scanned now is `k`, behind `a`; `b` is held back.
  obtain ⟨b, hheld, -, -⟩ := LineBreak.exists_held (l ++ m) r
  have hlimit := Machine.scanLimit_eq (l := l ++ m) (r := r) (by omega)
  rw [hk] at hheld hlimit ⊢
  unfold advanceTo past
  simp only
  rw [if_neg (by simp), ← List.append_assoc, hlimit, pure_bind]
  generalize settled l (m ++ r) = a at *
  have htext : l ++ m ++ r = a ++ k ++ (b ++ r) := by rw [hheld, List.append_assoc (a ++ k)]
  have hslice : Machine.slice (l ++ m ++ r) (byteLength a) (byteLength (a ++ k)) = pure k :=
    Machine.slice_eq htext rfl rfl
  have hlength := congrArg byteLength htext
  simp only [Text.byteLength_append] at hlength hbytes
  rw [Nat.max_eq_left (by simp), hslice, pure_bind, Machine.breaks_utf8 (by omega), pure_bind]
  rfl

/-- Where these breaks stop can be counted. -/
theorem stop_le_of_settled (hbytes : byteLength (l ++ m ++ r) ≤ maxSignedCol)
    (hk : settled (l ++ m) r = settled l (m ++ r) ++ k) :
    ∀ s ∈ LineBreak.spans k, byteLength (settled l (m ++ r)) + s.stop ≤ maxCount := by
  intro s hs
  have hle := LineBreak.stop_le_of_mem_spans hs
  have hcount := Machine.maxCount_eq
  obtain ⟨b, hheld, -, -⟩ := LineBreak.exists_held (l ++ m) r
  have hlength := congrArg byteLength hheld
  rw [hk] at hlength
  simp only [Text.byteLength_append] at hlength hbytes
  omega

/-- A walk that is moved on to a later cut stands where a fresh one would, if the machine can count
to the column there, and to the line if that is another one. -/
theorem advanceTo_past_comesTo (hbytes : byteLength (l ++ m ++ r) ≤ maxSignedCol) :
    ((past p l (m ++ r)).advanceTo (byteLength (l ++ m))).ComesTo
      (((p.advance (l ++ m) r.head?).line = (p.advance l (m ++ r).head?).line ∨
        (p.advance (l ++ m) r.head?).line ≤ maxCount) ∧
          (p.advance (l ++ m) r.head?).col ≤ maxCount) (past p (l ++ m) r) := by
  obtain ⟨k, hk, hlines, hcols⟩ := LineBreak.exists_settled_between p l m r
  have hcountBreaks := Machine.countBreaks_comesTo (p.advance l (m ++ r).head?).line none
    (stop_le_of_settled hbytes hk)
  rw [advanceTo_past_eq hbytes hk]
  refine (hcountBreaks.mono fun h => ?_).bind ?_
  · -- There are no breaks on the way to a place on the same line.
    refine h.1.imp (fun hsame => ?_) fun hline => by rwa [← hlines]
    rw [hlines] at hsame
    exact List.eq_nil_of_length_eq_zero (by omega)
  · rw [Option.or_none, past]
    rcases hcols with ⟨hnone, hcols⟩ | ⟨x, y, hxy, hlast, hcols⟩
    · -- The walk is still on its line.
      have hadd := Machine.add_comesTo (p.advance l (m ++ r).head?).col m.length
      rw [← hcols] at hadd
      simp only [hnone, Option.map_none, Machine.charCount, Machine.slice_append, pure_bind]
      refine (hadd.mono And.right).bind ?_
      rw [← hlines]
      exact .pure _
    · -- It has come to the line `y`.
      have hslice : Machine.slice (l ++ m ++ r) (byteLength (settled l (m ++ r)) + byteLength x)
          (byteLength (l ++ m)) = pure y :=
        Machine.slice_eq (l := settled l (m ++ r) ++ x) (r := r) (by rw [hxy]) (by simp)
          (by rw [hxy])
      simp only [hlast, Option.map_some, Machine.charCount, hslice, pure_bind]
      rw [← hlines, ← hcols]
      exact .pure _

/-- So it does where the machine can count to the position. -/
theorem advanceTo_past_of_counted (hbytes : byteLength (l ++ m ++ r) ≤ maxSignedCol)
    (h : (p.advance (l ++ m) r.head?).Counted) :
    (past p l (m ++ r)).advanceTo (byteLength (l ++ m)) = pure (past p (l ++ m) r) :=
  (advanceTo_past_comesTo hbytes).of_sure ⟨.inr h.line, h.col⟩

/-- A walk that is moved on to a line that the machine cannot count to meets a number that is no
count. -/
theorem advanceTo_past_meets_line (hbytes : byteLength (l ++ m ++ r) ≤ maxSignedCol)
    (hfrom : (p.advance l (m ++ r).head?).line ≤ maxCount)
    (hline : maxCount < (p.advance (l ++ m) r.head?).line) :
    ((past p l (m ++ r)).advanceTo (byteLength (l ++ m))).Meets .count := by
  obtain ⟨k, hk, hlines, -⟩ := LineBreak.exists_settled_between p l m r
  rw [hlines] at hline
  rw [advanceTo_past_eq hbytes hk]
  exact (Machine.countBreaks_meets hfrom hline (stop_le_of_settled hbytes hk)).bind

/-- So does one that is moved on to any other position that the machine cannot count to. -/
theorem advanceTo_past_meets (hbytes : byteLength (l ++ m ++ r) ≤ maxSignedCol)
    (hfrom : (p.advance l (m ++ r).head?).Counted) (h : ¬ (p.advance (l ++ m) r.head?).Counted) :
    ((past p l (m ++ r)).advanceTo (byteLength (l ++ m))).Meets .count := by
  by_cases hline : (p.advance (l ++ m) r.head?).line ≤ maxCount
  · have hcol : maxCount < (p.advance (l ++ m) r.head?).col :=
      Nat.not_le.mp fun hcol => h ⟨hline, hcol⟩
    obtain ⟨k, hk, hlines, hcols⟩ := LineBreak.exists_settled_between p l m r
    have hstop := stop_le_of_settled hbytes hk
    rw [hlines] at hline
    rw [advanceTo_past_eq hbytes hk, (Machine.countBreaks_comesTo _ _ hstop).of_sure (.inr hline),
      pure_bind, Option.or_none]
    rcases hcols with ⟨hnone, hcols⟩ | ⟨x, y, hxy, hlast, hcols⟩
    · rw [hcols] at hcol
      simp only [hnone, Option.map_none, Machine.charCount, Machine.slice_append, pure_bind]
      exact (Machine.add_meets hcol).bind
    · -- No text in memory has a line that is too long to be counted.
      have hcount := Machine.maxCount_eq
      have hy := Text.length_le_byteLength y
      rw [hxy] at hbytes
      simp only [Text.byteLength_append] at hbytes
      omega
  · exact advanceTo_past_meets_line hbytes hfrom.line (Nat.not_le.mp hline)

end Locator

end SourceText
