import Mathlib.Tactic.SplitIfs
import SourceText.Proofs.Position
import SourceText.Proofs.Spans
import SourceText.Text.LineBreak

/-!
# Line breaks are what the characters say

`LineBreak.spans` reads bytes. A character beyond ASCII has no byte below 128 in its encoding, so a
byte that ends a line is a character that does (`ne_of_mem_encoding`). Hence the scan can be read
off the characters: `scan_other`, `scan_lineFeed`, `scan_pair` and `scan_return` are its four steps,
and `byBreaks` is the induction that goes with them. The breaks found are spans of the text in order
(`spans_inOrder`), and their number is how many lines further down the text ends
(`line_advance_eq`).
-/

namespace SourceText.LineBreak

open Text (byteLength utf8)

/-! ## Bytes and characters -/

/-- A byte ends a line by its number alone. -/
theorem ofNat_ne {n : Nat} (h : n % 256 ≠ 10) (h' : n % 256 ≠ 13) :
    UInt8.ofNat n ≠ 10 ∧ UInt8.ofNat n ≠ 13 := by
  constructor <;> intro e <;> have := congrArg UInt8.toNat e <;>
    rw [UInt8.toNat_ofNat'] at this
  · exact h this
  · exact h' this

/-- A character that ends no line has no byte in its encoding that would: its one byte is its
number, and of several bytes each is at least 128. -/
theorem ne_of_mem_encoding {c : Char} (hn : c ≠ '\n') (hr : c ≠ '\r') :
    ∀ b ∈ String.utf8EncodeChar c, b ≠ 10 ∧ b ≠ 13 := by
  have hn' : c.val.toNat ≠ 10 := fun h => hn (Char.toNat_inj.mp h)
  have hr' : c.val.toNat ≠ 13 := fun h => hr (Char.toNat_inj.mp h)
  simp only [String.utf8EncodeChar]
  -- One case for each length of the encoding, from one byte to four.
  split_ifs with h1 h2 h3 <;> simp only [List.forall_mem_cons]
  · exact ⟨ofNat_ne (by omega) (by omega), by simp⟩
  · exact ⟨ofNat_ne (by omega) (by omega), ofNat_ne (by omega) (by omega), by simp⟩
  · exact ⟨ofNat_ne (by omega) (by omega), ofNat_ne (by omega) (by omega),
      ofNat_ne (by omega) (by omega), by simp⟩
  · exact ⟨ofNat_ne (by omega) (by omega), ofNat_ne (by omega) (by omega),
      ofNat_ne (by omega) (by omega), ofNat_ne (by omega) (by omega), by simp⟩

/-! ## The scan by characters -/

/-- The empty text is no bytes. -/
@[simp] theorem utf8_nil : utf8 [] = [] := rfl

/-- A text is the bytes of its characters, one after the other. -/
@[simp] theorem utf8_cons (c : Char) (t : Text) :
    utf8 (c :: t) = String.utf8EncodeChar c ++ utf8 t := rfl

/-- A byte that ends no line is passed over. -/
theorem scan_cons_of_ne {b : UInt8} (h : b ≠ 10 ∧ b ≠ 13) (offset : Nat) (bytes : List UInt8) :
    scan offset (b :: bytes) = scan (offset + 1) bytes := by
  cases bytes with
  | nil => simp [scan, h.1, h.2]
  | cons b' bytes => rw [scan, if_neg h.1, if_neg h.2]

/-- Bytes that end no line are passed over. -/
theorem scan_append_of_ne {bytes : List UInt8} (h : ∀ b ∈ bytes, b ≠ 10 ∧ b ≠ 13) (offset : Nat)
    (rest : List UInt8) : scan offset (bytes ++ rest) = scan (offset + bytes.length) rest := by
  induction bytes generalizing offset with
  | nil => simp
  | cons b bytes ih =>
    rw [List.forall_mem_cons] at h
    rw [List.cons_append, scan_cons_of_ne h.1, ih h.2, List.length_cons]
    congr 1
    omega

/-- A character that ends no line is passed over. -/
theorem scan_other {c : Char} (hn : c ≠ '\n') (hr : c ≠ '\r') (offset : Nat) (t : Text) :
    scan offset (utf8 (c :: t)) = scan (offset + c.utf8Size) (utf8 t) := by
  rw [utf8_cons, scan_append_of_ne (ne_of_mem_encoding hn hr), String.length_utf8EncodeChar]

/-- A line feed is a break. -/
theorem scan_lineFeed (offset : Nat) (t : Text) :
    scan offset (utf8 ('\n' :: t)) = ⟨offset, offset + 1⟩ :: scan (offset + 1) (utf8 t) := by
  change scan offset (10 :: utf8 t) = _
  cases utf8 t with
  | nil => rfl
  | cons b bytes => rw [scan, if_pos rfl]

/-- A carriage return and a line feed are one break. -/
theorem scan_pair (offset : Nat) (t : Text) :
    scan offset (utf8 ('\r' :: '\n' :: t)) =
      ⟨offset, offset + 2⟩ :: scan (offset + 2) (utf8 t) := by
  change scan offset (13 :: 10 :: utf8 t) = _
  rw [scan, if_neg (by decide), if_pos rfl, if_pos rfl]

/-- A text starts with the byte of a line feed when it starts with a line feed. -/
theorem head?_utf8_ne {t : Text} (h : t.head? ≠ some '\n') : (utf8 t).head? ≠ some 10 := by
  cases t with
  | nil => simp
  | cons c t =>
    have hn : c ≠ '\n' := fun e => h (by rw [e]; rfl)
    by_cases hr : c = '\r'
    · subst hr
      change some 13 ≠ some 10
      decide
    · -- Any other character has no byte that ends a line, so not in front either.
      obtain ⟨b, bytes, hb⟩ := List.exists_cons_of_ne_nil (String.utf8EncodeChar_ne_nil (c := c))
      have hne := ne_of_mem_encoding hn hr b (by rw [hb]; exact List.mem_cons_self)
      rw [utf8_cons, hb, List.cons_append, List.head?_cons]
      exact fun e => hne.1 (Option.some.inj e)

/-- A carriage return alone is a break. -/
theorem scan_return {t : Text} (h : t.head? ≠ some '\n') (offset : Nat) :
    scan offset (utf8 ('\r' :: t)) = ⟨offset, offset + 1⟩ :: scan (offset + 1) (utf8 t) := by
  have hhead := head?_utf8_ne h
  change scan offset (13 :: utf8 t) = _
  generalize utf8 t = bytes at hhead ⊢
  cases bytes with
  | nil => rfl
  | cons b bytes =>
    rw [scan, if_neg (by decide), if_pos rfl, if_neg (fun e => hhead (by rw [e]; rfl))]

/-- Induction on a text that is read as the scan reads it: by breaks, and by characters between
them. -/
theorem byBreaks {motive : Text → Prop} (nil : motive [])
    (other : ∀ c t, c ≠ '\n' → c ≠ '\r' → motive t → motive (c :: t))
    (lineFeed : ∀ t, motive t → motive ('\n' :: t))
    (pair : ∀ t, motive t → motive ('\r' :: '\n' :: t))
    (ret : ∀ t, t.head? ≠ some '\n' → motive t → motive ('\r' :: t)) : ∀ t, motive t
  | [] => nil
  | c :: t => by
    -- Only behind a carriage return does the next character decide.
    by_cases hn : c = '\n'
    · subst hn
      exact lineFeed t (byBreaks nil other lineFeed pair ret t)
    · by_cases hr : c = '\r'
      · subst hr
        match t with
        | [] => exact ret [] (by simp) nil
        | d :: t =>
          by_cases hd : d = '\n'
          · subst hd
            exact pair t (byBreaks nil other lineFeed pair ret t)
          · exact ret (d :: t) (by simpa using hd)
              (byBreaks nil other lineFeed pair ret (d :: t))
      · exact other c t hn hr (byBreaks nil other lineFeed pair ret t)

/-! ## What the breaks are -/

/-- A break has at least one character. -/
theorem lt_of_mem_scan {offset : Nat} {bytes : List UInt8} {s : Span}
    (h : s ∈ scan offset bytes) : s.start < s.stop := by
  fun_induction scan offset bytes with
  | case1 | case3 => simp at h
  | case2 =>
    obtain rfl := List.mem_singleton.mp h
    exact Nat.lt_succ_self _
  | case4 | case5 | case6 =>
    -- It is the break found here, or one behind it.
    rename_i ih
    rcases List.mem_cons.mp h with rfl | h
    · simp
    · exact ih h
  | case7 =>
    rename_i ih
    exact ih h

/-- The breaks found behind `l` are spans of the text in order. -/
theorem scan_inOrder (l t : Text) :
    Span.InOrder (l ++ t) (byteLength l) (scan (byteLength l) (utf8 t)) := by
  -- What has been read moves from `t` to `l`, with the offset that goes with it.
  induction t using byBreaks generalizing l with
  | nil => trivial
  | other c t hn hr ih =>
    rw [scan_other hn hr]
    have h := ih (l ++ [c])
    rw [List.append_assoc, Text.byteLength_append] at h
    exact h.mono (by simp)
  | lineFeed t ih =>
    rw [scan_lineFeed]
    have h := ih (l ++ ['\n'])
    rw [Text.byteLength_append] at h
    exact h.cons_middle rfl
  | pair t ih =>
    rw [scan_pair]
    have h := ih (l ++ ['\r', '\n'])
    rw [Text.byteLength_append] at h
    exact h.cons_middle rfl
  | ret t ht ih =>
    rw [scan_return ht]
    have h := ih (l ++ ['\r'])
    rw [Text.byteLength_append] at h
    exact h.cons_middle rfl

/-- The line breaks of a text are spans of it in order. -/
theorem spans_inOrder (text : Text) : Span.InOrder text 0 (spans text) :=
  scan_inOrder [] text

/-- None of them stops behind the end. -/
theorem stop_le_of_mem_spans {text : Text} {s : Span} (h : s ∈ spans text) :
    s.stop ≤ byteLength text :=
  ((spans_inOrder text).inside h).le_high

/-- A text ends as many lines further down as a scan finds breaks in it. -/
theorem line_advance_eq_scan (p : Position) (text : Text) (offset : Nat) :
    (p.advance text none).line = p.line + (scan offset (utf8 text)).length := by
  induction text using byBreaks generalizing p offset with
  | nil => simp [scan]
  | other c t hn hr ih =>
    rw [scan_other hn hr, Position.advance_cons, ih _ (offset + c.utf8Size)]
    simp [Position.after, hn, hr]
  | lineFeed t ih =>
    rw [scan_lineFeed, Position.advance_cons, ih _ (offset + 1), List.length_cons]
    simp only [Position.after, true_or, if_true]
    omega
  | pair t ih =>
    -- The walk takes two steps, and only the second leads to another line.
    rw [scan_pair, Position.advance_cons, Position.advance_cons, ih _ (offset + 2),
      List.length_cons]
    simp [Position.after]
    omega
  | ret t ht ih =>
    rw [scan_return ht, Position.advance_cons, ih _ (offset + 1), List.length_cons, Option.or_none]
    simp only [Position.after, ht, ne_eq, not_false_eq_true, and_self, or_true, if_true]
    omega

/-- A text ends as many lines further down as it has line breaks. -/
theorem line_advance_eq (p : Position) (text : Text) :
    (p.advance text none).line = p.line + (spans text).length :=
  line_advance_eq_scan p text 0

end SourceText.LineBreak
