import SourceText.Proofs.Consumption
import SourceText.Proofs.Longest

/-!
# Tokens are the longest that can be taken

The languages of what tokens are put together from: runs of characters of a set, a node that may be
missing (`takes_oneOrMore`, `takes_zeroOrMore`, `takes_optional`), and the sets themselves. A parser
that looks for a token of an anchored and eager pattern takes the longest text ahead that is in the
language of the pattern, and moves past it (`Placed.take?_longest`).
-/

namespace SourceText

open Text (byteLength)

/-! ## Languages of tokens -/

namespace Pattern.Language

/-- Rounds of one character each. -/
theorem rounds_oneOf (s : CharSet) (k : Nat) (l m r : Text) :
    (oneOf s).rounds k l m r ↔ m.length = k ∧ ∀ c ∈ m, s.mem c = true := by
  induction k generalizing l m with
  | zero =>
    change m = [] ↔ _
    constructor
    · rintro rfl
      simp
    · rintro ⟨h, -⟩
      exact List.eq_nil_of_length_eq_zero h
  | succ k ih =>
    constructor
    · rintro ⟨_, m, rfl, ⟨c, hc, rfl⟩, hrest⟩
      obtain ⟨hlen, hall⟩ := (ih _ _).mp hrest
      exact ⟨by simp [hlen], List.forall_mem_cons.mpr ⟨hc, hall⟩⟩
    · rintro ⟨hlen, hall⟩
      obtain ⟨c, m, rfl⟩ := List.exists_cons_of_length_eq_add_one hlen
      rw [List.forall_mem_cons] at hall
      refine ⟨[c], m, rfl, ⟨c, hall.1, rfl⟩, (ih _ _).mpr ⟨?_, hall.2⟩⟩
      exact Nat.succ.inj hlen

end Pattern.Language

namespace Token

open Pattern

variable {s : CharSet} {n : Node} {l m r : Text}

/-- One or more characters of a set. -/
theorem takes_oneOrMore : (oneOrMore s).takes l m r ↔ m ≠ [] ∧ ∀ c ∈ m, s.mem c = true := by
  have h : (oneOrMore s).takes l m r ↔ ∃ k, 1 ≤ k ∧ m.length = k ∧ ∀ c ∈ m, s.mem c = true := by
    simp [oneOrMore, Node.takes, Language.roundsOf, Language.rounds_oneOf]
  rw [h]
  constructor
  · rintro ⟨k, hk, rfl, hall⟩
    exact ⟨List.ne_nil_of_length_pos hk, hall⟩
  · rintro ⟨hne, hall⟩
    exact ⟨_, List.length_pos_of_ne_nil hne, rfl, hall⟩

/-- Any number of characters of a set. -/
theorem takes_zeroOrMore : (zeroOrMore s).takes l m r ↔ ∀ c ∈ m, s.mem c = true := by
  simp [zeroOrMore, Node.takes, Language.roundsOf, Language.rounds_oneOf]

/-- A node, or nothing. -/
theorem takes_optional : (optional n).takes l m r ↔ m = [] ∨ n.takes l m r := by
  change (∃ k, (0 ≤ k ∧ ∀ i, some 1 = some i → k ≤ Nat.max i 0) ∧ n.takes.rounds k l m r) ↔ _
  constructor
  · rintro ⟨k, ⟨-, hk⟩, h⟩
    have hle : k ≤ 1 := hk 1 rfl
    obtain rfl | rfl : k = 0 ∨ k = 1 := by omega
    · exact .inl h
    · right
      rwa [Language.rounds, Language.rounds, Language.andThen_nothing] at h
  · rintro (rfl | h)
    · exact ⟨0, by simp, rfl⟩
    · refine ⟨1, by simp, ?_⟩
      rwa [Language.rounds, Language.rounds, Language.andThen_nothing]

/-! ## Sets of characters -/

/-- The set of digits has the ten of ASCII. -/
theorem mem_digit (c : Char) : digit.mem c = c.isDigit := by
  rw [Bool.eq_iff_iff]
  simp [CharSet.mem, digit, CharSet.holds, Char.isDigit, UInt32.le_iff_toNat_le]

/-- A set of one character holds that character. -/
theorem mem_single_iff {c x : Char} : (CharSet.single x).mem c = true ↔ c = x := by
  rw [← Char.toNat_inj]
  simp only [CharSet.mem, CharSet.single, CharSet.holds, Bool.and_eq_true, Bool.or_eq_true,
    decide_eq_true_eq, Bool.false_eq_true, or_false]
  omega

/-- A set of two characters, in their order, holds these. -/
theorem mem_pair_iff {c x y : Char} (hxy : x.toNat ≤ y.toNat) :
    (CharSet.mk [⟨x.toNat, x.toNat⟩, ⟨y.toNat, y.toNat⟩]).mem c = true ↔ c = x ∨ c = y := by
  rw [← Char.toNat_inj, ← Char.toNat_inj]
  simp only [CharSet.mem, CharSet.holds, Bool.and_eq_true, Bool.or_eq_true, decide_eq_true_eq,
    Bool.false_eq_true, or_false]
  omega

/-- The set of signs has the plus and the minus. -/
theorem mem_sign_iff {c : Char} : sign.mem c = true ↔ c = '+' ∨ c = '-' :=
  mem_pair_iff (x := '+') (y := '-') (by decide)

/-- An exponent begins with its letter in either case. -/
theorem mem_exponentLetter_iff {c : Char} : exponentLetter.mem c = true ↔ c = 'E' ∨ c = 'e' :=
  mem_pair_iff (x := 'E') (y := 'e') (by decide)

end Token

/-! ## The longest token -/

namespace Parser

variable {p : Parser}

/-- A pattern that is anchored and eager takes the longest text that it can. -/
theorem Placed.take?_longest (hp : p.Placed) {pattern : Pattern}
    (hanchored : pattern.code.Anchored) (heager : pattern.code.Eager []) {m r : Text}
    (hremaining : p.remaining = m ++ r) (htakes : pattern.node.takes [] m r)
    (hlongest : ∀ m' r', p.remaining = m' ++ r' → pattern.node.takes [] m' r' →
      m'.length ≤ m.length) :
    ∃ token, p.take? pattern = some (token, ⟨p.segment, p.index + byteLength m⟩) ∧
      token.text = m ∧
      p.segment.substring p.index (p.index + byteLength m) = .ok token := by
  obtain ⟨found, hfound, hlong⟩ := Pattern.exists_findFrom_longest hanchored heager htakes
  rw [← hremaining] at hfound
  have hmatches : pattern.Matches p.remaining ⟨0, byteLength m⟩ :=
    ⟨[], m, r, hremaining, rfl, rfl, htakes⟩
  have hstart : found.span.start = 0 :=
    Nat.le_zero.mp (Pattern.findFrom_le hfound hmatches (Nat.le_refl 0))
  -- What has been found is no shorter than the text, and so it is the text.
  obtain ⟨l', m', r', hcut, hl', hm', htakes'⟩ := Pattern.findFrom_matches hfound
  obtain rfl : l' = [] := Text.byteLength_eq_zero.mp (hl'.trans hstart)
  rw [List.nil_append] at hcut hm'
  obtain ⟨x, rfl, -⟩ := Text.exists_middle (hremaining.symm.trans hcut) (hm'.symm ▸ hlong)
  have hx : x = [] := by
    have hle := hlongest _ _ hcut htakes'
    rw [List.length_append] at hle
    exact List.eq_nil_of_length_eq_zero (by omega)
  subst hx
  rw [List.append_nil] at hm'
  have htake : p.take? pattern =
      some (p.ahead m, ⟨p.segment, p.index + byteLength m⟩) := by
    rw [take?_eq hp, hfound, Option.bind_some, if_pos hstart, ← hm']
    rfl
  obtain ⟨stop, htoken, hstop⟩ := hp.takesToken htake
  obtain rfl : p.index + byteLength m = stop := congrArg Parser.index hstop
  exact ⟨_, htake, hp.text_ahead hremaining, htoken.substring⟩

/-- Where nothing ahead is in the language of the pattern, there is no token. -/
theorem Placed.take?_eq_none (hp : p.Placed) {pattern : Pattern}
    (h : ∀ m r, p.remaining = m ++ r → ¬ pattern.node.takes [] m r) :
    p.take? pattern = none := by
  cases htake : p.take? pattern with
  | none => rfl
  | some found =>
    obtain ⟨stop, htoken, -⟩ := hp.takesToken htake
    obtain ⟨l, m, r, hremaining, hl, -, htakes⟩ := htoken.matched
    obtain rfl := Text.byteLength_eq_zero.mp hl
    exact absurd htakes (h m r hremaining)

end Parser

end SourceText
