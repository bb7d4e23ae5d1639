import SourceText.Proofs.LastLine
import SourceText.Proofs.Lines

/-!
# Every line break once

A `BreakReader` walks over the bytes of a text and gives one line break each time it is asked for
the next. What it does is told by the bytes that are left (`BreakReader.next_of_drop_cons`), and
asked again and again it gives what a scan of these bytes finds, and then comes to their end
(`BreakReader.reads_of_drop`).

A text can be cut in front of any carriage return, and in front of a line feed that is not the
second half of a pair, with the breaks of the whole text those of the two parts
(`LineBreak.spans_append`). So each of the two characters lies in a break
(`LineBreak.exists_mem_spans`), and, as breaks come one after the other, in no second one. That is
what `LineBreak.FoundOnce` says of the spans that are found, and `LineBreak.foundOnce_spans` shows
it of those of any text.
-/

namespace SourceText

open Text (byteLength isBoundary utf8)

/-- A reader of bytes, which looks for line breaks from an offset on. -/
structure BreakReader where
  /-- What is read. -/
  bytes : List UInt8
  /-- The offset of the byte that is read next. -/
  offset : Nat
  deriving DecidableEq, Repr

namespace BreakReader

/-- The reader at the start of a text. -/
def start (text : Text) : BreakReader := ⟨utf8 text, 0⟩

/-- Reads up to the end of the next break, or to the end of the bytes if there is none. -/
def next (r : BreakReader) : Option Span × BreakReader :=
  match h : r.bytes[r.offset]? with
  | none => (none, r)
  | some b =>
    if b = 10 then (some ⟨r.offset, r.offset + 1⟩, ⟨r.bytes, r.offset + 1⟩)
    else if b = 13 then
      if r.bytes[r.offset + 1]? = some 10 then
        (some ⟨r.offset, r.offset + 2⟩, ⟨r.bytes, r.offset + 2⟩)
      else (some ⟨r.offset, r.offset + 1⟩, ⟨r.bytes, r.offset + 1⟩)
    else next ⟨r.bytes, r.offset + 1⟩
termination_by r.bytes.length - r.offset
decreasing_by
  obtain ⟨hlt, -⟩ := List.getElem?_eq_some_iff.mp h
  omega

/-- Asked for the next break again and again, the reader gives those of a list, in order, and from
then on none. -/
inductive Reads : BreakReader → List Span → Prop
  /-- There is no next break, however often the reader is asked. -/
  | ended {r r' : BreakReader} (h : r.next = (none, r')) (again : r'.next = (none, r')) :
    Reads r []
  /-- There is one, and behind it the reader gives the rest. -/
  | found {r r' : BreakReader} {b : Span} {rest : List Span} (h : r.next = (some b, r'))
    (hrest : Reads r' rest) : Reads r (b :: rest)

/-- A reader that goes on as another one does reads the same. -/
theorem Reads.of_next_eq {r r' : BreakReader} {found : List Span} (h : r.next = r'.next)
    (hread : Reads r' found) : Reads r found := by
  cases hread with
  | ended h' again => exact .ended (h.trans h') again
  | found h' hrest => exact .found (h.trans h') hrest

/-- What a reader reads is told by where it stands. -/
theorem Reads.unique {r : BreakReader} {found found' : List Span} (h : Reads r found)
    (h' : Reads r found') : found = found' := by
  induction h generalizing found' with
  | ended h _ =>
    cases h' with
    | ended => rfl
    | found h' => cases (congrArg Prod.fst (h.symm.trans h') : none = some _)
  | found h _ ih =>
    cases h' with
    | ended h' => cases (congrArg Prod.fst (h.symm.trans h') : some _ = none)
    | found h' hrest =>
      obtain ⟨hb, rfl⟩ := Prod.mk.inj (h.symm.trans h')
      rw [Option.some.inj hb, ih hrest]

variable {bytes rest : List UInt8} {offset : Nat}

/-- Behind a byte are those that follow it. -/
theorem drop_succ_of_cons {b : UInt8} (h : bytes.drop offset = b :: rest) :
    bytes.drop (offset + 1) = rest := by
  rw [← List.tail_drop, h, List.tail_cons]

/-- At the end of the bytes there is no next break. -/
theorem next_of_drop_nil (h : bytes.drop offset = []) :
    next ⟨bytes, offset⟩ = (none, ⟨bytes, offset⟩) := by
  have hnone : bytes[offset]? = none := by rw [← List.head?_drop, h, List.head?_nil]
  rw [next]
  split
  · rfl
  · next hsome => cases (hnone.symm.trans hsome : none = some _)

/-- What the reader does next is told by the bytes that are left. -/
theorem next_of_drop_cons {b : UInt8} (h : bytes.drop offset = b :: rest) :
    next ⟨bytes, offset⟩ =
      if b = 10 then (some ⟨offset, offset + 1⟩, ⟨bytes, offset + 1⟩)
      else if b = 13 then
        if rest.head? = some 10 then (some ⟨offset, offset + 2⟩, ⟨bytes, offset + 2⟩)
        else (some ⟨offset, offset + 1⟩, ⟨bytes, offset + 1⟩)
      else next ⟨bytes, offset + 1⟩ := by
  have hsome : bytes[offset]? = some b := by rw [← List.head?_drop, h, List.head?_cons]
  have hbehind : bytes[offset + 1]? = rest.head? := by
    rw [← List.head?_drop, drop_succ_of_cons h]
  rw [next]
  split
  · next hnone => cases (hnone.symm.trans hsome : none = some _)
  · next hsome' =>
    obtain rfl := Option.some.inj (hsome.symm.trans hsome')
    rw [hbehind]

/-- The reader reads what a scan finds in the bytes that are left. -/
theorem reads_of_drop (h : bytes.drop offset = rest) :
    Reads ⟨bytes, offset⟩ (LineBreak.scan offset rest) := by
  fun_induction LineBreak.scan offset rest with
  | case1 offset => exact .ended (next_of_drop_nil h) (next_of_drop_nil h)
  | case2 offset b hb =>
    -- The last byte is a break.
    have hend := next_of_drop_nil (drop_succ_of_cons h)
    have hnext : next ⟨bytes, offset⟩ = (some ⟨offset, offset + 1⟩, ⟨bytes, offset + 1⟩) := by
      rw [next_of_drop_cons h]
      rcases hb with rfl | rfl <;> rfl
    exact .found hnext (.ended hend hend)
  | case3 offset b hb =>
    -- The last byte is none.
    have hend := next_of_drop_nil (drop_succ_of_cons h)
    rw [not_or] at hb
    have hnext : next ⟨bytes, offset⟩ = (none, ⟨bytes, offset + 1⟩) := by
      rw [next_of_drop_cons h, if_neg hb.1, if_neg hb.2, hend]
    exact .ended hnext hend
  | case4 offset b' rest ih => exact .found (next_of_drop_cons h) (ih (drop_succ_of_cons h))
  | case5 offset rest _ ih =>
    exact .found (next_of_drop_cons h) (ih (drop_succ_of_cons (drop_succ_of_cons h)))
  | case6 offset b' rest hb' _ ih =>
    refine .found ?_ (ih (drop_succ_of_cons h))
    rw [next_of_drop_cons h, if_neg (by decide), if_pos rfl, if_neg (by simpa using hb')]
  | case7 offset b b' rest hn hr ih =>
    refine (ih (drop_succ_of_cons h)).of_next_eq ?_
    rw [next_of_drop_cons h, if_neg hn, if_neg hr]

/-- The reader of a text reads its line breaks, and nothing else. -/
theorem reads_start_iff {text : Text} {found : List Span} :
    (start text).Reads found ↔ found = LineBreak.spans text := by
  have hspans : (start text).Reads (LineBreak.spans text) := reads_of_drop List.drop_zero
  exact ⟨fun h => h.unique hspans, fun h => h ▸ hspans⟩

end BreakReader

namespace LineBreak

/-! ## Breaks of two parts -/

/-- A scan that counts offsets from elsewhere finds the same breaks. -/
theorem scan_add (base n : Nat) (bytes : List UInt8) :
    scan (base + n) bytes = (scan n bytes).map (·.shift base) := by
  fun_induction scan n bytes with
  | case1 => rfl
  | case2 n b hb =>
    rw [scan, if_pos hb]
    rfl
  | case3 n b hb =>
    rw [scan, if_neg hb]
    rfl
  | case4 n b' rest ih =>
    rw [scan, if_pos rfl, List.map_cons, ← ih]
    rfl
  | case5 n rest _ ih =>
    rw [scan, if_neg (by decide), if_pos rfl, if_pos rfl, List.map_cons, ← ih]
    rfl
  | case6 n b' rest hb' _ ih =>
    rw [scan, if_neg (by decide), if_pos rfl, if_neg hb', List.map_cons, ← ih]
    rfl
  | case7 n b b' rest hn hr ih =>
    rw [scan, if_neg hn, if_neg hr, ← ih]
    rfl

/-- A text that is cut where no break straddles has the breaks of its two parts. -/
theorem spans_append {l r : Text} (h : Apart l r) :
    spans (l ++ r) = spans l ++ (spans r).map (·.shift (byteLength l)) := by
  rw [spans, scan_append h, spans, spans, ← scan_add, Nat.zero_add, Nat.add_zero]

/-- A break that a scan finds behind such a cut is one of the whole text. -/
theorem mem_spans_of_apart {l r : Text} (h : Apart l r) {b : Span}
    (hb : b ∈ scan (byteLength l) (utf8 r)) : b ∈ spans (l ++ r) := by
  rw [spans, scan_append h, Nat.zero_add]
  exact List.mem_append_right _ hb

/-! ## The break that a character lies in -/

/-- A carriage return and the line feed behind it are a break. -/
theorem pair_mem_spans (l r : Text) :
    ⟨byteLength l, byteLength (l ++ ['\r', '\n'])⟩ ∈ spans (l ++ '\r' :: '\n' :: r) := by
  refine mem_spans_of_apart (apart_return l _) ?_
  rw [scan_pair, Text.byteLength_append]
  exact List.mem_cons_self

/-- Every carriage return and every line feed lies in a break. -/
theorem exists_mem_spans {l r : Text} {c : Char} (hc : c = '\r' ∨ c = '\n') :
    ∃ b ∈ spans (l ++ c :: r), b.start ≤ byteLength l ∧ byteLength (l ++ [c]) ≤ b.stop := by
  rcases hc with rfl | rfl
  · by_cases hr : r.head? = some '\n'
    · -- It is the first half of a pair.
      obtain ⟨r, rfl⟩ := List.head?_eq_some_iff.mp hr
      exact ⟨_, pair_mem_spans l r, Nat.le_refl _, by simp⟩
    · refine ⟨⟨byteLength l, byteLength (l ++ ['\r'])⟩,
        mem_spans_of_apart (apart_return l r) ?_, Nat.le_refl _, Nat.le_refl _⟩
      rw [scan_return hr, Text.byteLength_append]
      exact List.mem_cons_self
  · by_cases hl : l.getLast? = some '\r'
    · -- It is the second half.
      obtain ⟨l, rfl⟩ := List.getLast?_eq_some_iff.mp hl
      rw [List.append_assoc]
      exact ⟨_, pair_mem_spans l r, by simp, by simp⟩
    · refine ⟨⟨byteLength l, byteLength (l ++ ['\n'])⟩,
        mem_spans_of_apart (fun h => hl h.1) ?_, Nat.le_refl _, Nat.le_refl _⟩
      rw [scan_lineFeed, Text.byteLength_append]
      exact List.mem_cons_self

/-- The spans that are found are the line breaks of a text, each of them once. -/
structure FoundOnce (text : Text) (found : List Span) : Prop where
  /-- A reader of the bytes comes to each of them, one after the other, and then to the end. -/
  read : ∀ spans, (BreakReader.start text).Reads spans ↔ spans = found
  /-- None of them is empty, -/
  nonempty : ∀ b ∈ found, b.start < b.stop
  /-- and each stops before the next ones start. -/
  ascending : found.Pairwise fun b b' => b.stop ≤ b'.start
  /-- They start and stop between characters. -/
  boundaries : ∀ b ∈ found, isBoundary text b.start ∧ isBoundary text b.stop
  /-- Each of them is a pair, or either half of one. -/
  texts : ∀ b ∈ found, Text.slice text b.start b.stop = ['\r', '\n'] ∨
    Text.slice text b.start b.stop = ['\r'] ∨ Text.slice text b.start b.stop = ['\n']
  /-- Every carriage return and every line feed lies in exactly one of them. -/
  once : ∀ l c r, text = l ++ c :: r → c = '\r' ∨ c = '\n' →
    ∃! b, b ∈ found ∧ b.start ≤ byteLength l ∧ byteLength (l ++ [c]) ≤ b.stop
  /-- If the one is right in front of the other, that is the pair of both. -/
  pairs : ∀ l r, text = l ++ '\r' :: '\n' :: r →
    ⟨byteLength l, byteLength (l ++ ['\r', '\n'])⟩ ∈ found
  /-- Wherever the text is cut without cutting a pair, they are those of the two parts. -/
  parts : ∀ l r, text = l ++ r → Apart l r →
    found = spans l ++ (spans r).map (·.shift (byteLength l))

/-- A scan of the bytes of a text finds every line break once. -/
theorem foundOnce_spans (text : Text) : FoundOnce text (spans text) := by
  have horder := spans_inOrder text
  refine
    { read := fun _ => BreakReader.reads_start_iff
      nonempty := fun b hb => lt_of_mem_scan hb
      ascending := horder.pairwise
      boundaries := fun b hb => (horder.of_mem hb).2.2
      texts := fun b hb => ?_
      once := ?_
      pairs := ?_
      parts := ?_ }
  · have hwritten : Text.slice text b.start b.stop ∈ written text := by
      rw [← map_slice_spans]
      exact List.mem_map_of_mem hb
    exact eq_of_mem_written hwritten
  · rintro l c r rfl hc
    obtain ⟨b, hb, hstart, hstop⟩ := exists_mem_spans (l := l) (r := r) hc
    refine ⟨b, ⟨hb, hstart, hstop⟩, ?_⟩
    rintro b' ⟨hb', hstart', hstop'⟩
    -- The byte of the character lies in both.
    have hbyte : byteLength l < byteLength (l ++ [c]) := by
      rw [Text.byteLength_append]
      exact Nat.lt_add_of_pos_right c.utf8Size_pos
    exact horder.eq_of_mem hb' hb ⟨hstart', Nat.lt_of_lt_of_le hbyte hstop'⟩
      ⟨hstart, Nat.lt_of_lt_of_le hbyte hstop⟩
  · rintro l r rfl
    exact pair_mem_spans l r
  · rintro l r rfl h
    exact spans_append h

/-- A carriage return in front of a pair is a break of its own, and so is one behind it. -/
example : spans "\r\r\n\n\r".toList = [⟨0, 1⟩, ⟨1, 3⟩, ⟨3, 4⟩, ⟨4, 5⟩] := by decide

end LineBreak

end SourceText
