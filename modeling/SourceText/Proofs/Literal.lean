import SourceText.Proofs.Leftmost
import SourceText.Segment.Split

/-!
# Separators of one character

A separator that `Split.literal?` takes for a character reads as the pattern of that character
(`Split.compile_of_literal?`): a sign of ASCII behind a backslash is one that a pattern may have
there (`Split.isEscapable_of_punctuation`). The matches of this pattern are the occurrences of the
character (`Pattern.allMatches_char`). A search finds the leftmost match, and a match of the pattern
is an occurrence (`Pattern.matches_char_iff`), so it finds the first occurrence that lies ahead. The
next search starts behind that. It follows that looking for the character directly makes no
difference to a split.
-/

namespace SourceText

open Text (byteLength)

namespace Split

/-! ## Occurrences -/

/-- There are no occurrences of a character in a text without it. -/
theorem occurrences_of_not_mem {c : Char} {t : Text} (hc : c ∉ t) (offset : Nat) :
    occurrences c offset t = [] := by
  induction t generalizing offset with
  | nil => rfl
  | cons a t ih =>
    rw [List.mem_cons, not_or] at hc
    obtain ⟨ha, ht⟩ := hc
    unfold occurrences
    simp only
    rw [if_neg (Ne.symm ha), ih ht]

/-- The first occurrence, and those behind it. -/
theorem occurrences_append_cons {c : Char} {a : Text} (hc : c ∉ a) (b : Text) (offset : Nat) :
    occurrences c offset (a ++ c :: b) =
      ⟨offset + byteLength a, offset + byteLength a + c.utf8Size⟩ ::
        occurrences c (offset + byteLength a + c.utf8Size) b := by
  induction a generalizing offset with
  | nil => simp [occurrences]
  | cons d a ih =>
    rw [List.mem_cons, not_or] at hc
    obtain ⟨hd, ha⟩ := hc
    rw [List.cons_append, occurrences, if_neg (Ne.symm hd), ih ha, Text.byteLength_cons,
      Nat.add_assoc offset]

end Split

/-! ## Matches of one character -/

namespace Pattern

variable {p : Pattern} {c : Char} (hp : p.node = .literal [c])
include hp

/-- A match of one character is an occurrence of it. -/
theorem matches_char_iff {text : Text} {s : Span} :
    p.Matches text s ↔
      ∃ l r, text = l ++ c :: r ∧ s = ⟨byteLength l, byteLength l + c.utf8Size⟩ := by
  unfold Matches
  rw [hp]
  constructor
  · rintro ⟨l, m, r, rfl, hstart, hstop, rfl⟩
    refine ⟨l, r, by simp, ?_⟩
    rw [Text.byteLength_append, Text.byteLength_cons, Text.byteLength_nil, Nat.add_zero] at hstop
    rw [hstart, ← hstart, hstop, hstart]
  · rintro ⟨l, r, rfl, rfl⟩
    exact ⟨l, [c], r, by simp, rfl, by simp, rfl⟩

/-- A search ahead finds nothing where there are no more occurrences. -/
theorem findFrom_char_of_not_mem {l r : Text} (hc : c ∉ r) :
    p.findFrom (l ++ r) (byteLength l) = none := by
  cases h : p.findFrom (l ++ r) (byteLength l) with
  | none => rfl
  | some m =>
    -- A match behind `l` would be an occurrence there.
    obtain ⟨l', r', htext, hspan⟩ := (matches_char_iff hp).mp (findFrom_matches h)
    have hle := (findFrom_within h).span.low_le
    rw [hspan] at hle
    obtain ⟨x, -, rfl⟩ := Text.exists_middle htext hle
    exact absurd (List.mem_append_right x (.head r')) hc

/-- Otherwise it finds the first of them. -/
theorem findFrom_char_append_cons {l a b : Text} (hc : c ∉ a) :
    ∃ m, p.findFrom (l ++ (a ++ c :: b)) (byteLength l) = some m ∧
      m.span = ⟨byteLength l + byteLength a, byteLength l + byteLength a + c.utf8Size⟩ := by
  have hs : p.Matches (l ++ (a ++ c :: b))
      ⟨byteLength (l ++ a), byteLength (l ++ a) + c.utf8Size⟩ :=
    (matches_char_iff hp).mpr ⟨l ++ a, b, by simp, rfl⟩
  obtain ⟨m, hm, hle⟩ := exists_findFrom (Text.isBoundary_append l _) hs (by simp)
  refine ⟨m, hm, ?_⟩
  obtain ⟨l', r', htext, hspan⟩ := (matches_char_iff hp).mp (findFrom_matches hm)
  have hlow := (findFrom_within hm).span.low_le
  rw [hspan] at hlow hle ⊢
  -- What is found lies behind `l`, and not behind the first occurrence, which is behind `a`.
  obtain ⟨x, rfl, hx⟩ := Text.exists_middle htext hlow
  rw [Text.byteLength_append, Text.byteLength_append, Nat.add_le_add_iff_left] at hle
  obtain ⟨y, rfl, hy⟩ := Text.exists_middle hx.symm hle
  cases y with
  | nil => simp
  | cons d y =>
    obtain ⟨rfl, -⟩ := List.cons.inj hy
    exact absurd (List.mem_append_right x (.head y)) hc

/-- Searches one after the other find one occurrence after the other. -/
theorem matchesFrom_char (n : Nat) (l r : Text) (hn : r.length < n) :
    p.matchesFrom (l ++ r) n (some (byteLength l)) = Split.occurrences c (byteLength l) r := by
  induction n generalizing l r with
  | zero => omega
  | succ n ih =>
    rw [matchesFrom]
    by_cases hmem : c ∈ r
    · obtain ⟨a, b, rfl, ha⟩ := List.eq_append_cons_of_mem hmem
      obtain ⟨m, hm, hspan⟩ := findFrom_char_append_cons hp (l := l) (b := b) ha
      have hsize := c.utf8Size_pos
      -- The match is not empty, so the next search starts at its end.
      have hnext : nextSearchStart (l ++ (a ++ c :: b)) m.span
          (byteLength (l ++ (a ++ c :: b))) = some (byteLength (l ++ a ++ [c])) := by
        have hne : m.span.isEmpty = false := by
          rw [hspan]
          simp [Span.isEmpty]
          omega
        rw [nextSearchStart, hne, hspan]
        simp [Nat.add_assoc]
      have hcut : l ++ (a ++ c :: b) = l ++ a ++ [c] ++ b := by simp
      have hrest := ih (l ++ a ++ [c]) b (by simp at hn; omega)
      rw [hm, Split.occurrences_append_cons ha]
      simp only [hnext]
      rw [hcut, hrest, hspan]
      simp [Nat.add_assoc]
    · rw [findFrom_char_of_not_mem hp hmem, Split.occurrences_of_not_mem hmem]

/-- All matches of one character are all of its occurrences. -/
theorem allMatches_char (text : Text) : p.allMatches text = Split.occurrences c 0 text :=
  matchesFrom_char hp (text.length + 1) [] text (Nat.lt_succ_self _)

end Pattern

/-! ## Reading one character -/

namespace Pattern

/-- The set of one character is written as that character. -/
theorem ofSet_single (c : Char) : Node.ofSet (.single c) = .literal [c] := by
  unfold Node.ofSet CharSet.single
  simp

/-- A text whose only sign is a character that stands for itself. -/
theorem compile_of_readSign {c d : Char} {rest : Text}
    (h : Reader.readSign (.start {}) d rest =
      .ok ((Reader.State.start {}).push (.sign (.literal [c])), [])) :
    compile {} (d :: rest) = .ok ⟨d :: rest, .literal [c]⟩ := by
  have hread : Reader.readSigns (d :: rest).length (.start {}) (d :: rest) =
      .ok (Reader.Part.sign (.literal [c])) := by
    have hskip : skipSpace (Reader.State.start {}).flags.extended (d :: rest) = d :: rest := rfl
    unfold Reader.readSigns
    simp only [List.length_cons, hskip, h]
    cases rest.length <;> rfl
  have hweight : ¬ maxWeight < (Node.literal [c]).weight := by
    have hmax : maxWeight = 10485760 := rfl
    have hsize := c.utf8Size_le_four
    rw [Node.weight, Text.byteLength_cons, Text.byteLength_nil]
    omega
  rw [compile, Reader.read, hread]
  simp only [Reader.Part.sign, Option.getD_some, hweight, if_false]
  rfl

/-- Outside classes a character without a meaning of its own stands for itself. -/
theorem nodeOfAtom_char (c : Char) : Reader.nodeOfAtom {} (.char c) = .literal [c] :=
  ofSet_single c

end Pattern

/-- A backslash takes from a sign of ASCII the meaning it may have, but for the two that stand for
the edges of a word behind one. -/
theorem Split.isEscapable_of_punctuation {c : Char} (h : CodeRange.anyContains punctuation c)
    (hedge : c ≠ '<' ∧ c ≠ '>') : Pattern.isEscapable c = true := by
  simp only [CodeRange.anyContains, punctuation, List.any_cons, List.any_nil, CodeRange.contains,
    Bool.or_false, Bool.or_eq_true, Bool.and_eq_true, decide_eq_true_eq] at h
  have hascii : c.toNat < 0x80 := by omega
  have hletter : c.isAlphanum = false := by
    have hval : c.val.toNat = c.toNat := rfl
    have hranges : c.isAlphanum = (decide ('A' ≤ c ∧ c ≤ 'Z') ||
        (decide ('a' ≤ c) && decide (c ≤ 'z')) || (decide ('0' ≤ c) && decide (c ≤ '9'))) := rfl
    rw [hranges]
    simp [Char.le_def, UInt32.le_iff_toNat_le, hval]
    omega
  simp [Pattern.isEscapable, hascii, hletter, hedge]

/-- A separator that is taken for a character reads as its pattern. -/
theorem Split.compile_of_literal? {separator : Text} {c : Char}
    (h : Split.literal? separator = some c) :
    Pattern.compile {} separator = .ok ⟨separator, .literal [c]⟩ := by
  unfold Split.literal? at h
  split at h
  · -- One character, which is none of the signs that have a meaning.
    rename_i d
    split_ifs at h with hd
    obtain rfl := Option.some.inj h
    have hne : ∀ e ∈ ".$|()[\x7b^?*+\\".toList, d ≠ e := by
      rintro e he rfl
      exact hd he
    apply Pattern.compile_of_readSign
    unfold Pattern.Reader.readSign
    rw [if_neg (hne '(' (by decide)), if_neg (hne ')' (by decide)), if_neg (hne '|' (by decide)),
      if_neg (hne '[' (by decide)), if_neg (hne '*' (by decide)), if_neg (hne '+' (by decide)),
      if_neg (hne '?' (by decide)), if_neg (hne '\x7b' (by decide)), if_neg (hne '.' (by decide)),
      if_neg (hne '^' (by decide)), if_neg (hne '$' (by decide)), if_neg (hne '\\' (by decide))]
    rw [← Pattern.nodeOfAtom_char d]
    rfl
  · -- A backslash, and a sign that it takes the meaning from.
    rename_i d
    split_ifs at h with hd
    obtain rfl := Option.some.inj h
    apply Pattern.compile_of_readSign
    have hescape : Pattern.readEscape false [d] = .ok (.char d, []) := by
      rw [Pattern.readEscape, if_pos (Split.isEscapable_of_punctuation hd.1 hd.2)]
    have hsign : Pattern.Reader.readSign (.start {}) '\\' [d] =
        (Pattern.readEscape false [d]).map fun found =>
          ((Pattern.Reader.State.start {}).push
            (.sign (Pattern.Reader.nodeOfAtom {} found.1)), found.2) := rfl
    rw [hsign, hescape, ← Pattern.nodeOfAtom_char d]
    rfl
  · cases h

namespace Segment

/-- Under every limit a separator is refused if it is no pattern, for the reason for which the
pattern is, and splits as its pattern does if it is one. -/
theorem splitText_cases (s : Segment) (separator : Text) :
    (∃ e, Pattern.compile {} separator = .error e ∧
        ∀ limit, s.splitText separator limit = .error e) ∨
      ∃ p, Pattern.compile {} separator = .ok p ∧
        ∀ limit, s.splitText separator limit = .ok (s.split p limit) := by
  cases hlit : Split.literal? separator with
  | some c =>
    refine .inr ⟨_, Split.compile_of_literal? hlit, fun limit => ?_⟩
    rw [split, Pattern.allMatches_char rfl, splitText, hlit]
  | none =>
    have hall (limit : SplitLimit) : s.splitText separator limit =
        (Pattern.compile {} separator).map (s.split · limit) := by
      rw [splitText, hlit]
    cases hp : Pattern.compile {} separator with
    | error e => exact .inl ⟨e, rfl, fun limit => by rw [hall, hp]; rfl⟩
    | ok p => exact .inr ⟨p, rfl, fun limit => by rw [hall, hp]; rfl⟩

/-- A separator that is looked for directly is a pattern too, and splits as the pattern does. So
whatever the separator, it is refused if and only if it is no pattern, and otherwise the segment is
split by the pattern. -/
theorem splitText_eq_split (s : Segment) (separator : Text) (limit : SplitLimit) :
    ((Split.literal? separator).isSome = true → ∃ p, Pattern.compile {} separator = .ok p ∧
        s.splitText separator limit = .ok (s.split p limit)) ∧
      ((∃ e, s.splitText separator limit = .error e) ↔
        ∃ e, Pattern.compile {} separator = .error e) ∧
      s.splitText separator limit = (Pattern.compile {} separator).map (s.split · limit) := by
  have hliteral : ∀ c, Split.literal? separator = some c →
      ∃ p, Pattern.compile {} separator = .ok p ∧
        s.splitText separator limit = .ok (s.split p limit) := by
    intro c hc
    refine ⟨_, Split.compile_of_literal? hc, ?_⟩
    rw [split, Pattern.allMatches_char rfl, splitText, hc]
  have hall : s.splitText separator limit =
      (Pattern.compile {} separator).map (s.split · limit) := by
    cases hc : Split.literal? separator with
    | none => rw [splitText, hc]
    | some c =>
      obtain ⟨p, hp, hsplit⟩ := hliteral c hc
      rw [hsplit, hp]
      rfl
  refine ⟨?_, ?_, hall⟩
  · intro hsome
    obtain ⟨c, hc⟩ := Option.isSome_iff_exists.mp hsome
    exact hliteral c hc
  · rw [hall]
    cases Pattern.compile {} separator with
    | error e => simp [Except.map]
    | ok p => simp [Except.map]

/-- An escaped period is looked for directly, and splits as the pattern that it is. -/
theorem splitText_period :
    Split.literal? "\\.".toList = some '.' ∧
      ∃ p, Pattern.compile {} "\\.".toList = .ok p ∧
        (ofText "a.b.".toList [] ⟨0, 0⟩).splitText "\\.".toList .keepTrailing =
          .ok ((ofText "a.b.".toList [] ⟨0, 0⟩).split p .keepTrailing) ∧
        ((ofText "a.b.".toList [] ⟨0, 0⟩).split p .keepTrailing).map text =
          [['a'], ['b'], []] := by
  obtain ⟨p, hp, hsplit⟩ := (splitText_eq_split (ofText "a.b.".toList [] ⟨0, 0⟩) "\\.".toList
    .keepTrailing).1 (by rfl)
  refine ⟨by rfl, p, hp, hsplit, ?_⟩
  obtain rfl := Except.ok.inj hp
  rfl

end Segment

end SourceText
