import Mathlib.Data.Finset.Max
import Mathlib.Data.List.Infix
import SourceText.Proofs.Tokens

/-!
# Numerals are taken as long as they are

A `Spelling` is a numeral in its parts: a sign or none, digits with a point among them, in front of
them or behind them, and an exponent or none. The pattern for numerals takes the texts that have a
spelling and no others (`Token.takes_numeral`).

Its alternatives stand in an order of their own, and its exponent may be given up when no digit
comes after the letter and the sign. What a search prefers is nevertheless the longest spelling
ahead. The characters that can come next tell all ways of the pattern apart (`sign_apart`,
`point_apart`, `exponentLetter_apart`, `digit_apart`), so its code is eager (`eager_numeral`), and a
token is the longest text ahead that is spelled (`Placed.take?_numeral`). If there is none, no token
is found (`Placed.take?_numeral_eq_none`).
-/

namespace SourceText

open Text (byteLength)

namespace Numeral

/-! ## Spellings -/

/-- A text of digits. -/
def AllDigits (text : Text) : Prop := ∀ c ∈ text, c.isDigit = true

instance : DecidablePred AllDigits := fun _ => decidable_of_iff _ List.all_eq_true

/-- A sign in front of digits, if there is one. -/
inductive Sign where
  | none
  | plus
  | minus
  deriving DecidableEq, Repr

/-- The sign as it is spelled. -/
def Sign.text : Sign → Text
  | none => []
  | plus => ['+']
  | minus => ['-']

/-- The digits of a numeral and its point. -/
structure Mantissa where
  /-- The digits before the point. -/
  whole : Text
  /-- The digits behind the point, if there is one. -/
  fraction? : Option Text
  /-- They are digits, -/
  whole_digits : AllDigits whole
  /-- and so are those behind the point. -/
  fraction_digits : ∀ fraction, fraction? = some fraction → AllDigits fraction
  /-- On one side of the point there are some. -/
  some_digits : whole ≠ [] ∨ ∃ fraction, fraction? = some fraction ∧ fraction ≠ []

/-- The mantissa as it is spelled. -/
def Mantissa.text (w : Mantissa) : Text :=
  w.whole ++ match w.fraction? with
    | none => []
    | some fraction => '.' :: fraction

/-- The exponent of a numeral. -/
structure Exponent where
  /-- The letter in front of it. -/
  letter : Char
  /-- Its sign. -/
  sign : Sign
  /-- Its digits. -/
  digits : Text
  /-- The letter is one of two. -/
  letter_eq : letter = 'E' ∨ letter = 'e'
  /-- The digits are digits, -/
  all_digits : AllDigits digits
  /-- and there are some. -/
  some_digits : digits ≠ []

/-- The exponent as it is spelled. -/
def Exponent.text (e : Exponent) : Text := e.letter :: (e.sign.text ++ e.digits)

/-- A way to spell a numeral. -/
structure Spelling where
  /-- The sign in front. -/
  sign : Sign
  /-- The digits and the point. -/
  mantissa : Mantissa
  /-- The exponent, if there is one. -/
  exponent? : Option Exponent

/-- The exponent as it is spelled, or nothing. -/
def Spelling.exponentText (w : Spelling) : Text :=
  match w.exponent? with
  | none => []
  | some exponent => exponent.text

/-- The numeral as it is spelled. -/
def Spelling.text (w : Spelling) : Text := w.sign.text ++ (w.mantissa.text ++ w.exponentText)

/-- A text that spells a numeral. -/
def IsSpelled (text : Text) : Prop := ∃ w : Spelling, w.text = text

end Numeral

namespace Token

open Pattern Numeral

variable {l m r : Text}

/-- The digits of the pattern are the digits of a numeral. -/
theorem forall_mem_digit : (∀ c ∈ m, digit.mem c = true) ↔ AllDigits m := by
  simp only [mem_digit, AllDigits]

/-- A sign that may be missing. -/
theorem takes_sign : (optional (.set sign)).takes l m r ↔ ∃ s : Sign, s.text = m := by
  rw [takes_optional]
  constructor
  · rintro (rfl | ⟨c, hc, rfl⟩)
    · exact ⟨.none, rfl⟩
    · rcases mem_sign_iff.mp hc with rfl | rfl
      · exact ⟨.plus, rfl⟩
      · exact ⟨.minus, rfl⟩
  · rintro ⟨s, rfl⟩
    cases s with
    | none => exact .inl rfl
    | plus => exact .inr ⟨'+', by decide, rfl⟩
    | minus => exact .inr ⟨'-', by decide, rfl⟩

/-- The pattern of a mantissa takes the mantissas, and nothing else. -/
theorem takes_mantissa : mantissa.takes l m r ↔ ∃ w : Mantissa, w.text = m := by
  constructor
  · rintro (⟨whole, rest, rfl, hwhole, hrest⟩ | ⟨_, fraction, rfl, rfl, hfraction⟩)
    · obtain ⟨hne, hall⟩ := takes_oneOrMore.mp hwhole
      rw [forall_mem_digit] at hall
      rcases takes_optional.mp hrest with rfl | ⟨_, fraction, rfl, rfl, hfraction⟩
      · exact ⟨⟨whole, none, hall, by simp, .inl hne⟩, rfl⟩
      · have hdigits := forall_mem_digit.mp (takes_zeroOrMore.mp hfraction)
        exact ⟨⟨whole, some fraction, hall, by simpa using hdigits, .inl hne⟩, rfl⟩
    · obtain ⟨hne, hall⟩ := takes_oneOrMore.mp hfraction
      rw [forall_mem_digit] at hall
      exact ⟨⟨[], some fraction, by simp [AllDigits], by simpa using hall, .inr ⟨_, rfl, hne⟩⟩, rfl⟩
  · rintro ⟨⟨whole, fraction?, hwhole, hfraction, hsome⟩, rfl⟩
    by_cases hne : whole = []
    · obtain ⟨fraction, rfl, hne'⟩ := hsome.resolve_left (not_not_intro hne)
      subst hne
      exact .inr ⟨['.'], fraction, rfl, rfl,
        takes_oneOrMore.mpr ⟨hne', forall_mem_digit.mpr (hfraction _ rfl)⟩⟩
    · refine .inl ⟨whole, _, rfl, takes_oneOrMore.mpr ⟨hne, forall_mem_digit.mpr hwhole⟩, ?_⟩
      cases fraction? with
      | none => exact takes_optional.mpr (.inl rfl)
      | some fraction =>
        exact takes_optional.mpr (.inr ⟨['.'], fraction, rfl, rfl,
          takes_zeroOrMore.mpr (forall_mem_digit.mpr (hfraction _ rfl))⟩)

/-- That of an exponent takes the exponents. -/
theorem takes_exponent : exponent.takes l m r ↔ ∃ e : Exponent, e.text = m := by
  constructor
  · rintro ⟨_, _, rfl, ⟨c, hc, rfl⟩, m₁, digits, rfl, hsign, hdigits⟩
    obtain ⟨s, rfl⟩ := takes_sign.mp hsign
    obtain ⟨hne, hall⟩ := takes_oneOrMore.mp hdigits
    exact ⟨⟨c, s, digits, mem_exponentLetter_iff.mp hc, forall_mem_digit.mp hall, hne⟩, rfl⟩
  · rintro ⟨⟨c, s, digits, hc, hall, hne⟩, rfl⟩
    exact ⟨[c], _, rfl, ⟨c, mem_exponentLetter_iff.mpr hc, rfl⟩, s.text, digits, rfl,
      takes_sign.mpr ⟨s, rfl⟩, takes_oneOrMore.mpr ⟨hne, forall_mem_digit.mpr hall⟩⟩

/-- The pattern takes what spells a numeral. -/
theorem takes_numeral : numeral.node.takes [] m r ↔ IsSpelled m := by
  constructor
  · rintro ⟨_, _, rfl, ⟨rfl, -⟩, _, _, rfl, hsign, _, m₃, rfl, hmantissa, hexponent⟩
    obtain ⟨s, rfl⟩ := takes_sign.mp hsign
    obtain ⟨w, rfl⟩ := takes_mantissa.mp hmantissa
    rcases takes_optional.mp hexponent with rfl | hexponent
    · exact ⟨⟨s, w, none⟩, rfl⟩
    · obtain ⟨e, rfl⟩ := takes_exponent.mp hexponent
      exact ⟨⟨s, w, some e⟩, rfl⟩
  · rintro ⟨⟨s, w, e?⟩, rfl⟩
    refine ⟨[], _, rfl, ⟨rfl, rfl⟩, s.text, _, rfl, takes_sign.mpr ⟨s, rfl⟩, w.text, _, rfl,
      takes_mantissa.mpr ⟨w, rfl⟩, ?_⟩
    cases e? with
    | none => exact takes_optional.mpr (.inl rfl)
    | some e => exact takes_optional.mpr (.inr (takes_exponent.mpr ⟨e, rfl⟩))

/-! ## The pattern is eager -/

/-- One digit or more, with the number `n` for the loop. -/
def digitsCode (n : Nat) : Code := .seq (.set digit) (.loop n (.set digit) true)

/-- Code in a group, or nothing, with the number `n` for the fork. -/
def optionalGroup (n index : Nat) (body : Code) : Code :=
  .fork n (.seq (.seq .opening (.seq body (.closing index))) .empty) .empty

/-- A sign or nothing, with the number `n` for the fork. -/
def signCode (n : Nat) : Code := .fork n (.seq (.set sign) .empty) .empty

/-- The code that a search for a numeral runs. -/
def numeralCode : Code :=
  .seq (.assertion .textStart) (.seq (signCode 0) (.seq
    (.seq .opening (.seq
      (.fork 5
        (.seq (digitsCode 1)
          (optionalGroup 3 2 (.seq (.set (.single '.')) (.loop 2 (.set digit) true))))
        (.seq (.set (.single '.')) (digitsCode 4)))
      (.closing 1)))
    (optionalGroup 8 3 (.seq (.set exponentLetter) (.seq (signCode 6) (digitsCode 7))))))

/-- This is the code of the pattern of numerals. -/
theorem code_numeral : numeral.code = numeralCode := rfl

/-- A sign is no digit and no point. -/
theorem sign_apart {c : Char} (h : sign.mem c = true) :
    digit.mem c = false ∧ (CharSet.single '.').mem c = false := by
  rcases mem_sign_iff.mp h with rfl | rfl <;> decide

/-- A point is no digit and does not begin an exponent. -/
theorem point_apart {c : Char} (h : (CharSet.single '.').mem c = true) :
    digit.mem c = false ∧ exponentLetter.mem c = false := by
  rcases mem_single_iff.mp h with rfl
  decide

/-- A letter before an exponent is no digit. -/
theorem exponentLetter_apart {c : Char} (h : exponentLetter.mem c = true) :
    digit.mem c = false := by
  rcases mem_exponentLetter_iff.mp h with rfl | rfl <;> decide

/-- A digit is none of these. -/
theorem digit_apart {c : Char} (h : digit.mem c = true) :
    (CharSet.single '.').mem c = false ∧ exponentLetter.mem c = false := by
  constructor <;> refine Bool.eq_false_iff.mpr fun h' => ?_
  · simp [(point_apart h').1] at h
  · simp [exponentLetter_apart h'] at h

/-- Wherever two ways part in the pattern, the next character tells them apart. -/
theorem eager_numeral : numeral.code.Eager [] := by
  have hdigit : ∀ c, digit.mem c = true → exponentLetter.mem c = false :=
    fun _ h => (digit_apart h).2
  rw [code_numeral]
  simp only [numeralCode, signCode, optionalGroup, digitsCode, Code.Eager, Code.nullable,
    Code.begins, beginsAll, Bool.false_and, Bool.true_and, Bool.and_true, Bool.or_false,
    Bool.false_or, Bool.and_self, Bool.and_false, Bool.or_eq_false_iff, Bool.or_true, and_true,
    true_and, implies_true]
  -- Ways part at the sign, at the two forms of the mantissa, behind each run of digits, and at the
  -- sign of the exponent.
  exact ⟨fun _ h => sign_apart h,
    ⟨fun _ h => (digit_apart h).1, ⟨fun _ h => digit_apart h, fun _ h => (point_apart h).2, hdigit⟩,
      hdigit⟩,
    fun _ h => (sign_apart h).1⟩

/-- Numerals are looked for at the parser's place only. -/
theorem anchored_numeral : numeral.code.Anchored := by
  rw [code_numeral]
  exact ⟨_, rfl⟩

end Token

/-! ## The longest numeral -/

namespace Numeral

/-- Of what begins a text, the longest that spells a numeral. -/
structure IsLongest (text m : Text) : Prop where
  /-- It begins the text. -/
  begins : m <+: text
  /-- It spells a numeral. -/
  spelled : IsSpelled m
  /-- Nothing longer does both. -/
  longest : ∀ m', m' <+: text → IsSpelled m' → m'.length ≤ m.length

/-- If something that begins a text spells a numeral, there is a longest that does. -/
theorem IsSpelled.exists_longest {text m : Text} (h : IsSpelled m) (hm : m <+: text) :
    ∃ m', IsLongest text m' := by
  classical
  -- Only finitely many texts begin it.
  obtain ⟨m', hm', hlongest⟩ := Finset.exists_max_image {m ∈ text.inits.toFinset | IsSpelled m}
    List.length ⟨m, by simp [hm, h]⟩
  simp only [Finset.mem_filter, List.mem_toFinset, List.mem_inits] at hm' hlongest
  exact ⟨m', hm'.1, hm'.2, fun m'' hm'' h'' => hlongest m'' ⟨hm'', h''⟩⟩

end Numeral

namespace Parser

open Numeral

variable {p : Parser}

/-- The token for a numeral is the longest spelling ahead. -/
theorem Placed.take?_numeral (hp : p.Placed) {m : Text} (hm : IsLongest p.remaining m) :
    ∃ token, p.take? Token.numeral = some (token, ⟨p.segment, p.index + byteLength m⟩) ∧
      token.text = m ∧ p.segment.substring p.index (p.index + byteLength m) = .ok token := by
  obtain ⟨r, hr⟩ := hm.begins
  refine hp.take?_longest Token.anchored_numeral Token.eager_numeral hr.symm
    (Token.takes_numeral.mpr hm.spelled) fun m' r' hremaining htakes => ?_
  exact hm.longest m' ⟨r', hremaining.symm⟩ (Token.takes_numeral.mp htakes)

/-- There is no token where no numeral is spelled. -/
theorem Placed.take?_numeral_eq_none (hp : p.Placed)
    (h : ∀ m, m <+: p.remaining → ¬ IsSpelled m) : p.take? Token.numeral = none := by
  refine hp.take?_eq_none fun m r hremaining htakes => ?_
  exact h m ⟨r, hremaining.symm⟩ (Token.takes_numeral.mp htakes)

/-- What is taken is a longest numeral of what is left. -/
theorem Placed.isLongest_of_take? (hp : p.Placed) {token : Segment} {p' : Parser}
    (h : p.take? Token.numeral = some (token, p')) : IsLongest p.remaining token.text := by
  have hsome : ∃ m, m <+: p.remaining ∧ IsSpelled m := by
    by_contra hnone
    rw [hp.take?_numeral_eq_none fun m hm hspelled => hnone ⟨m, hm, hspelled⟩] at h
    cases h
  obtain ⟨m₀, hm₀, hspelled⟩ := hsome
  obtain ⟨m, hm⟩ := hspelled.exists_longest hm₀
  obtain ⟨token', htake, rfl, -⟩ := hp.take?_numeral hm
  rw [h] at htake
  obtain ⟨rfl, -⟩ := Prod.mk.inj (Option.some.inj htake)
  exact hm

/-- After any calls, the call for a number takes the longest beginning of the text ahead that spells
a numeral and moves past it, unless no number can hold it. Where nothing spells a numeral, the call
fails at the parser's place. -/
theorem run_longest_numeral {d : Document} {s : Segment} (hs : Segment.Reachable d s)
    (ops : List Op) (hp : (ofSegment s).run ops = p) (message : Parser → Text) :
    ((∃ m, m <+: p.remaining ∧ IsSpelled m) →
      ∃ m token, IsLongest p.remaining m ∧
        p.take? Token.numeral = some (token, ⟨p.segment, p.index + byteLength m⟩) ∧
        token.text = m ∧
        p.segment.substring p.index (p.index + byteLength m) = .ok token ∧
        (∀ value, Decimal.ofNumeral (.ofText m) = .ok value →
          p.perform (.decimal message) =
            (.decimal value, ⟨p.segment, p.index + byteLength m⟩)) ∧
        ∀ e, Decimal.ofNumeral (.ofText m) = .error e →
          p.perform (.decimal message) = (.failed ⟨message p, token, some e.message⟩, p)) ∧
      ((∀ m, m <+: p.remaining → ¬ IsSpelled m) →
        p.perform (.decimal message) = (.failed ⟨message p, p.here, none⟩, p)) := by
  obtain ⟨hplaced, -⟩ := run_placed (ofSegment_placed hs.wellPlaced.1) ops
  rw [hp] at hplaced
  constructor
  · rintro ⟨m₀, hm₀, hspelled⟩
    obtain ⟨m, hm⟩ := hspelled.exists_longest hm₀
    obtain ⟨token, htake, rfl, hsub⟩ := hplaced.take?_numeral hm
    exact ⟨_, token, hm, htake, rfl, hsub, fun _ h => perform_decimal_of_ok htake h,
      fun _ h => perform_decimal_of_error htake h⟩
  · intro h
    exact perform_decimal_of_none (hplaced.take?_numeral_eq_none h)

/-- An exponent without digits is left where it is. -/
theorem longest_numeral_before_letter :
    let p := (ofSegment (.ofText "x-.5e+".toList [] ⟨0, 0⟩)).run [.advance 1]
    IsLongest p.remaining "-.5".toList ∧
      p.perform (.decimal fun _ => []) = (.decimal ⟨-5, 1⟩, ⟨p.segment, 4⟩) := by
  intro p
  have hspelled : ∃ m, m <+: p.remaining ∧ IsSpelled m :=
    ⟨"-.5".toList, by decide, ⟨.minus, ⟨[], some ['5'], by decide, by simp [AllDigits],
      .inr ⟨_, rfl, List.cons_ne_nil _ _⟩⟩, none⟩, rfl⟩
  obtain ⟨m, token, hm, htake, -, -, hvalue, -⟩ :=
    (run_longest_numeral (.root (d := ⟨"x-.5e+".toList, [], ⟨0, 0⟩⟩)) [.advance 1]
      (p := p) rfl fun _ => []).1 hspelled
  -- The token ends before the letter, and so does the longest spelling.
  have hindex : p.index + byteLength m = 4 := by
    have hfound : (p.take? Token.numeral).map (·.2.index) = some 4 := by decide
    rw [htake] at hfound
    exact Option.some.inj hfound
  obtain ⟨r, hr⟩ : m <+: "-.5".toList ++ "e+".toList := hm.begins
  obtain ⟨rfl, -⟩ := Text.append_inj_of_byteLength hr (Nat.add_left_cancel (n := p.index) hindex)
  exact ⟨hm, hvalue ⟨-5, 1⟩ rfl⟩

end Parser

end SourceText
