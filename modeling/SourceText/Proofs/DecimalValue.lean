import Mathlib.Algebra.Order.Field.Rat
import Mathlib.Data.List.Induction
import Mathlib.Data.List.TakeWhile
import Mathlib.Tactic.FieldSimp
import Mathlib.Tactic.Ring
import SourceText.Proofs.Numeral

/-!
# The number that a numeral denotes

A spelling denotes a rational number: what its digits before the point write, as an integer, and
those behind it, each a tenth of the one before, times the power of ten that its exponent says
(`Spelling.number`). Its digits read as one integer, with the point moved by its scale, are that
number (`Spelling.number_eq`).

A numeral goes to a converter as a plain text (`plainText`): a plus sign in front is left out, and
so is a point that no digit is behind, and a zero is put in front of a point that no digit is
before. A spelling is taken apart into the parts that it was put together from (`ofText_text`), so
what is handed on spells the same digits with the same scale, plainly (`plainText_text`,
`digits_plain`, `scale_plain`). Whatever a converter is, if it reads plain spellings (`Converts`),
it makes of the plain text what the parser makes of the numeral (`convert_plainText`): the number
that is written, where the exponent and the scale are within their limits (`Spelling.Held`), and an
error everywhere else.
-/

namespace SourceText

/-! ## Digits -/

namespace Digits

/-- No digits are worth nothing. -/
@[simp] theorem value_nil (base : Nat) : value base [] = 0 := rfl

/-- A digit behind others moves them up by one place. -/
theorem value_concat (base : Nat) (t : Text) (c : Char) :
    value base (t ++ [c]) = value base t * base + valueOf c := by
  simp [value]

/-- Digits in front count for as many powers of the base as there are digits behind them. -/
theorem value_append (base : Nat) (a b : Text) :
    value base (a ++ b) = value base a * base ^ b.length + value base b := by
  induction b using List.reverseRecOn with
  | nil => simp
  | append_singleton b c ih =>
    calc value base (a ++ (b ++ [c]))
        = value base (a ++ b) * base + valueOf c := by
          rw [← List.append_assoc, value_concat]
      _ = (value base a * base ^ b.length + value base b) * base + valueOf c := by rw [ih]
      _ = value base a * base ^ (b ++ [c]).length + value base (b ++ [c]) := by
          rw [value_concat, List.length_append, List.length_singleton, pow_succ]
          ring

end Digits

namespace Numeral

/-! ## The number that a numeral denotes -/

/-- What a sign multiplies by. -/
def Sign.factor : Sign → ℤ
  | none | plus => 1
  | minus => -1

/-- The number that digits behind a point write. -/
def fractionValue : Text → ℚ
  | [] => 0
  | c :: rest => (Digits.valueOf c + fractionValue rest) / 10

/-- The digits behind the point. -/
def Mantissa.fraction (w : Mantissa) : Text := w.fraction?.getD []

/-- The digits on both sides of the point. -/
def Mantissa.digits (w : Mantissa) : Text := w.whole ++ w.fraction

/-- The integer that the exponent writes. -/
def Exponent.value (e : Exponent) : ℤ := e.sign.factor * Digits.value 10 e.digits

namespace Spelling

variable (w : Spelling)

/-- The integer that the exponent writes, or zero. -/
def exponent : ℤ :=
  match w.exponent? with
  | none => 0
  | some e => e.value

/-- The integer that the digits write, without the point. -/
def digits : ℤ := w.sign.factor * Digits.value 10 w.mantissa.digits

/-- How many digits are behind the point, less the exponent. -/
def scale : ℤ := w.mantissa.fraction.length - w.exponent

/-- The number that the numeral denotes. -/
def number : ℚ :=
  w.sign.factor * (Digits.value 10 w.mantissa.whole + fractionValue w.mantissa.fraction) *
    10 ^ w.exponent

/-- The exponent fits in 128 bits, and the scale in 64. -/
structure Held : Prop where
  /-- The exponent is not too far below zero, -/
  exponent_ge : -2 ^ 127 ≤ w.exponent
  /-- and not too great. -/
  exponent_lt : w.exponent < 2 ^ 127
  /-- Nor is the scale too far below zero, -/
  scale_ge : -2 ^ 63 ≤ w.scale
  /-- or too great. -/
  scale_lt : w.scale < 2 ^ 63

end Spelling

end Numeral

namespace Decimal

/-- The number that a decimal is. -/
def number (d : Decimal) : ℚ := d.digits * 10 ^ (-d.scale)

/-- A signed number of so many bits lies between the two powers. -/
theorem fitsBits_iff {bits : Nat} {n : ℤ} :
    fitsBits bits n = true ↔ -2 ^ (bits - 1) ≤ n ∧ n < 2 ^ (bits - 1) := by
  simp [fitsBits]

end Decimal

namespace Numeral

/-- Digits behind the point are worth what they are as an integer, moved down by as many places as
there are. -/
theorem fractionValue_eq (t : Text) : fractionValue t = Digits.value 10 t / 10 ^ t.length := by
  induction t with
  | nil => simp [fractionValue]
  | cons c t ih =>
    have hvalue := Digits.value_append 10 [c] t
    rw [List.singleton_append] at hvalue
    rw [fractionValue, ih, hvalue]
    simp only [Digits.value, List.foldl_cons, List.foldl_nil, List.length_cons]
    push_cast
    field_simp
    ring

/-- The digits as one integer, with the point moved, are the number. -/
theorem Spelling.number_eq (w : Spelling) : (⟨w.digits, w.scale⟩ : Decimal).number = w.number := by
  have hscale : (10 : ℚ) ^ (-w.scale) = 10 ^ w.exponent / 10 ^ w.mantissa.fraction.length := by
    rw [scale, neg_sub, zpow_sub₀ (by norm_num), zpow_natCast]
  calc (⟨w.digits, w.scale⟩ : Decimal).number
      = (w.sign.factor * (Digits.value 10 w.mantissa.whole * 10 ^ w.mantissa.fraction.length +
          Digits.value 10 w.mantissa.fraction)) *
            (10 ^ w.exponent / 10 ^ w.mantissa.fraction.length) := by
        rw [Decimal.number, hscale, digits, Mantissa.digits, Digits.value_append]
        push_cast
        rfl
    _ = w.sign.factor * (Digits.value 10 w.mantissa.whole +
          Digits.value 10 w.mantissa.fraction / 10 ^ w.mantissa.fraction.length) *
            10 ^ w.exponent := by
        field_simp
    _ = w.number := by rw [number, fractionValue_eq]

/-! ## The parts of a spelling -/

section Parts

variable {t : Text}

/-- A text does not begin with a sign. -/
def Signless (t : Text) : Prop := t.head? ≠ some '+' ∧ t.head? ≠ some '-'

/-- A sign is taken off, if what is behind it begins with none. -/
theorem unsigned_append (s : Sign) (h : Signless t) : unsigned (s.text ++ t) = t := by
  cases s with
  | plus | minus => rfl
  | none =>
    obtain ⟨hplus, hminus⟩ := h
    cases t with
    | nil => rfl
    | cons c t =>
      change unsigned (c :: t) = c :: t
      unfold unsigned
      split <;> simp_all

/-- Nor can it then be mistaken for another. -/
theorem head?_append_eq_minus_iff (s : Sign) (h : Signless t) :
    (s.text ++ t).head? = some '-' ↔ s = .minus := by
  cases s with
  | plus | minus => simp [Sign.text]
  | none => simpa [Sign.text] using h.2

/-- What a sign multiplies by is what a minus sign in front makes of a number. -/
theorem Sign.factor_mul (s : Sign) (n : ℤ) : s.factor * n = if s = .minus then -n else n := by
  cases s <;> simp [factor]

/-- A character of a kind is none that is not of that kind. -/
theorem ne_of_kind {p : Char → Bool} {c x : Char} (h : p c = true) (hx : p x = false) :
    c ≠ x := by
  rintro rfl
  rw [h] at hx
  exact Bool.noConfusion hx

/-- No sign is a digit. -/
theorem AllDigits.signless (h : AllDigits t) : Signless t := by
  constructor <;> intro hhead
  all_goals exact absurd (h _ (List.mem_of_head? hhead)) (by decide)

namespace Mantissa

variable (w : Mantissa)

/-- Behind the point there are digits only. -/
theorem fraction_allDigits : AllDigits w.fraction := by
  unfold fraction
  cases h : w.fraction? with
  | none => simp [AllDigits]
  | some fraction => exact w.fraction_digits fraction h

/-- Without a point a mantissa is its digits. -/
theorem text_of_none (h : w.fraction? = none) : w.text = w.whole := by simp [text, h]

/-- With a point a mantissa has its digits on both sides. -/
theorem text_of_some {fraction : Text} (h : w.fraction? = some fraction) :
    w.text = w.whole ++ '.' :: w.fraction := by simp [text, Mantissa.fraction, h]

/-- Nothing else is in it. -/
theorem mem_text {c : Char} (h : c ∈ w.text) : c.isDigit = true ∨ c = '.' := by
  cases hf : w.fraction? with
  | none =>
    rw [w.text_of_none hf] at h
    exact .inl (w.whole_digits c h)
  | some fraction =>
    rw [w.text_of_some hf, List.mem_append, List.mem_cons] at h
    rcases h with h | h | h
    · exact .inl (w.whole_digits c h)
    · exact .inr h
    · exact .inl (w.fraction_allDigits c h)

/-- It is never empty. -/
theorem text_ne_nil : w.text ≠ [] := by
  cases hf : w.fraction? with
  | none =>
    have hsome := w.some_digits
    simp only [hf, reduceCtorEq, false_and, exists_false, or_false] at hsome
    rwa [w.text_of_none hf]
  | some fraction => simp [w.text_of_some hf]

/-- A mantissa begins with no sign, whatever is behind it. -/
theorem signless_append (t : Text) : Signless (w.text ++ t) := by
  rw [Signless, List.head?_append_of_ne_nil _ w.text_ne_nil]
  constructor <;> intro hhead
  all_goals exact absurd (w.mem_text (List.mem_of_head? hhead)) (by decide)

/-- A mantissa has no letter of an exponent in it. -/
theorem not_isExponentMark {c : Char} (h : c ∈ w.text) : (!isExponentMark c) = true := by
  rcases w.mem_text h with hdigit | rfl
  · simp [isExponentMark, ne_of_kind hdigit]
  · rfl

/-- The point is none of the digits in front of it. -/
theorem whole_ne_point : ∀ c ∈ w.whole, (c != '.') = true := fun c hc =>
  bne_iff_ne.mpr (ne_of_kind (w.whole_digits c hc) rfl)

/-- Up to the point there are the digits in front of it. -/
theorem takeWhile_text : w.text.takeWhile (· != '.') = w.whole := by
  cases hf : w.fraction? with
  | none => rw [w.text_of_none hf, List.takeWhile_eq_self_iff.mpr w.whole_ne_point]
  | some fraction =>
    rw [w.text_of_some hf, List.takeWhile_append_of_pos w.whole_ne_point]
    simp

/-- Behind the point there are the other digits. -/
theorem drop_dropWhile_text : (w.text.dropWhile (· != '.')).drop 1 = w.fraction := by
  cases hf : w.fraction? with
  | none =>
    rw [w.text_of_none hf, List.dropWhile_eq_nil_iff.mpr w.whole_ne_point]
    simp [fraction, hf]
  | some fraction =>
    rw [w.text_of_some hf, List.dropWhile_append_of_pos w.whole_ne_point]
    simp

end Mantissa

namespace Spelling

variable (w : Spelling)

/-- An exponent begins with its letter. -/
theorem isExponentMark_of_head? {c : Char} (h : w.exponentText.head? = some c) :
    isExponentMark c = true := by
  cases he : w.exponent? with
  | none => simp [exponentText, he] at h
  | some e =>
    obtain rfl : e.letter = c := by simpa [exponentText, he, Exponent.text] using h
    rcases e.letter_eq with hletter | hletter <;> simp [isExponentMark, hletter]

/-- The letter is where the mantissa ends. -/
theorem takeWhile_body :
    (w.mantissa.text ++ w.exponentText).takeWhile (!isExponentMark ·) = w.mantissa.text := by
  rw [List.takeWhile_append_of_pos fun c => w.mantissa.not_isExponentMark]
  cases h : w.exponentText with
  | nil => simp
  | cons c t => simp [w.isExponentMark_of_head? (c := c) (by rw [h]; rfl)]

/-- From there on it is the exponent. -/
theorem dropWhile_body :
    (w.mantissa.text ++ w.exponentText).dropWhile (!isExponentMark ·) = w.exponentText := by
  rw [List.dropWhile_append_of_pos fun c => w.mantissa.not_isExponentMark]
  cases h : w.exponentText with
  | nil => rfl
  | cons c t => simp [w.isExponentMark_of_head? (c := c) (by rw [h]; rfl)]

/-- Without its sign a spelling is a mantissa and an exponent. -/
theorem unsigned_text : unsigned w.text = w.mantissa.text ++ w.exponentText :=
  unsigned_append _ (w.mantissa.signless_append _)

/-- Only a spelling with a minus sign begins with one. -/
theorem head?_text_eq_minus_iff : w.text.head? = some '-' ↔ w.sign = .minus :=
  head?_append_eq_minus_iff _ (w.mantissa.signless_append _)

/-- A spelling is taken apart into what it was put together from. -/
theorem ofText_text : ofText w.text =
    ⟨decide (w.sign = .minus), w.mantissa.whole, w.mantissa.fraction, w.exponentText⟩ := by
  simp only [ofText, unsigned_text, takeWhile_body, dropWhile_body, Mantissa.takeWhile_text,
    Mantissa.drop_dropWhile_text]
  congr 1
  rw [Bool.eq_iff_iff, beq_iff_eq, decide_eq_true_eq, head?_text_eq_minus_iff]

/-- What is read off the text has the digits of the spelling. -/
theorem digits_ofText : (ofText w.text).digits = w.digits := by
  rw [ofText_text, digits, Sign.factor_mul]
  simp [Numeral.digits, Mantissa.digits]

/-- What is read off the text has the exponent of the spelling. -/
theorem exponentValue_ofText : (ofText w.text).exponentValue = w.exponent := by
  rw [ofText_text]
  cases he : w.exponent? with
  | none => simp [exponentValue, exponentText, exponent, he]
  | some e =>
    have hsignless := e.all_digits.signless
    simp only [exponentValue, exponentText, exponent, he, Exponent.text, Exponent.value,
      Sign.factor_mul, unsigned_append e.sign hsignless,
      head?_append_eq_minus_iff e.sign hsignless]

end Spelling

end Parts

/-! ## Plain spellings -/

/-- No plus sign is in front, and there are digits before the point and, if there is one, behind
it. -/
structure Spelling.Plain (w : Spelling) : Prop where
  /-- The sign is a minus, if there is one. -/
  sign_ne_plus : w.sign ≠ .plus
  /-- In front there are digits. -/
  whole_ne_nil : w.mantissa.whole ≠ []
  /-- The point is not the last of the mantissa. -/
  fraction_ne_nil : w.mantissa.fraction? ≠ some []

namespace Mantissa

variable (w : Mantissa)

/-- The digits in front of the point, or a zero. -/
def plainWhole : Text := if w.whole = [] then ['0'] else w.whole

/-- The point and the digits behind it, if there are any. -/
def plainFraction : Text := if w.fraction = [] then [] else '.' :: w.fraction

/-- In front of the point a plain mantissa has digits. -/
theorem plainWhole_ne_nil : w.plainWhole ≠ [] := by
  unfold plainWhole
  split_ifs with h
  · exact List.cons_ne_nil _ _
  · exact h

/-- In front of the point a plain mantissa has nothing but digits. -/
theorem plainWhole_allDigits : AllDigits w.plainWhole := by
  unfold plainWhole
  split_ifs
  · simp [AllDigits]
  · exact w.whole_digits

/-- A zero in front counts for nothing. -/
theorem value_plainWhole : Digits.value 10 w.plainWhole = Digits.value 10 w.whole := by
  unfold plainWhole
  split_ifs with h
  · rw [h]
    rfl
  · rfl

/-- The mantissa with digits on both sides of its point, if it has one. -/
def plain : Mantissa where
  whole := w.plainWhole
  fraction? := if w.fraction = [] then none else some w.fraction
  whole_digits := w.plainWhole_allDigits
  fraction_digits := by
    intro fraction h
    split_ifs at h
    obtain rfl := Option.some.inj h
    exact w.fraction_allDigits
  some_digits := .inl w.plainWhole_ne_nil

/-- The digits behind the point stay. -/
theorem fraction_plain : w.plain.fraction = w.fraction := by
  change (if w.fraction = [] then none else some w.fraction).getD [] = _
  split_ifs with h <;> simp [h]

/-- A plain mantissa is put together from its two halves. -/
theorem text_plain : w.plain.text = w.plainWhole ++ w.plainFraction := by
  unfold text plain plainFraction
  split_ifs <;> rfl

end Mantissa

/-- The spelling with a plain mantissa and without a plus sign in front. -/
def Spelling.plain (w : Spelling) : Spelling where
  sign := if w.sign = .minus then .minus else .none
  mantissa := w.mantissa.plain
  exponent? := w.exponent?

namespace Spelling

variable (w : Spelling)

/-- What is made plain is plain. -/
theorem plain_plain : w.plain.Plain where
  sign_ne_plus := by
    change (if w.sign = .minus then Sign.minus else .none) ≠ .plus
    split_ifs <;> simp
  whole_ne_nil := w.mantissa.plainWhole_ne_nil
  fraction_ne_nil := by
    change (if w.mantissa.fraction = [] then none else some w.mantissa.fraction) ≠ some []
    split_ifs with h
    · simp
    · simpa using h

/-- A plain spelling has the same digits, as a zero in front adds nothing. -/
theorem digits_plain : w.plain.digits = w.digits := by
  have hsign : w.plain.sign.factor = w.sign.factor := by
    unfold plain
    cases w.sign <;> rfl
  have hvalue : Digits.value 10 w.plain.mantissa.digits = Digits.value 10 w.mantissa.digits := by
    change Digits.value 10 (w.mantissa.plainWhole ++ w.mantissa.plain.fraction) = _
    rw [Mantissa.fraction_plain, Digits.value_append, Mantissa.value_plainWhole,
      Mantissa.digits, Digits.value_append]
  rw [digits, digits, hsign, hvalue]

/-- A plain spelling has the same exponent. -/
theorem exponent_plain : w.plain.exponent = w.exponent := rfl

/-- A plain spelling has the same scale, as the digits behind the point stay. -/
theorem scale_plain : w.plain.scale = w.scale := by
  have hfraction : w.plain.mantissa.fraction = w.mantissa.fraction := w.mantissa.fraction_plain
  rw [scale, scale, hfraction, exponent_plain]

/-- Of the signs only a minus is left in front of it. -/
theorem text_plain : w.plain.text = (if w.sign = .minus then ['-'] else []) ++
    (w.mantissa.plainWhole ++ w.mantissa.plainFraction ++ w.exponentText) := by
  change Sign.text (if w.sign = .minus then .minus else .none) ++
    (w.mantissa.plain.text ++ w.exponentText) = _
  rw [Mantissa.text_plain]
  split_ifs <;> rfl

/-- A plain spelling stays as it is. -/
theorem Plain.text_plain {w : Spelling} (h : w.Plain) : w.plain.text = w.text := by
  have hsign : Sign.text (if w.sign = .minus then .minus else .none) = w.sign.text := by
    cases hs : w.sign with
    | none | minus => rfl
    | plus => exact absurd hs h.sign_ne_plus
  have hwhole : w.mantissa.plainWhole = w.mantissa.whole := if_neg h.whole_ne_nil
  have hmantissa : w.mantissa.plain.text = w.mantissa.text := by
    rw [Mantissa.text_plain, hwhole]
    cases hf : w.mantissa.fraction? with
    | none => simp [Mantissa.plainFraction, Mantissa.fraction, Mantissa.text, hf]
    | some fraction =>
      have hne : fraction ≠ [] := by
        rintro rfl
        exact h.fraction_ne_nil hf
      simp [Mantissa.plainFraction, Mantissa.fraction, Mantissa.text, hf, hne]
  change Sign.text (if w.sign = .minus then .minus else .none) ++
    (w.mantissa.plain.text ++ w.exponentText) = _
  rw [hsign, hmantissa, text]

end Spelling

/-! ## The text that is handed on -/

/-- The text of a numeral as it is handed on: without a plus sign in front, without a point that no
digit is behind, and with a zero in front of a point that no digit is before. -/
def plainText (text : Text) : Text :=
  let sign := if text.head? = some '-' then ['-'] else []
  let written := (unsigned text).takeWhile (!isExponentMark ·)
  let exponent := (unsigned text).dropWhile (!isExponentMark ·)
  let mantissa := if written.getLast? = some '.' then written.dropLast else written
  let lead := if mantissa.head? = some '.' then ['0'] else []
  sign ++ lead ++ mantissa ++ exponent

/-- Digits do not end with a point. -/
theorem AllDigits.getLast?_ne {t : Text} (h : AllDigits t) : t.getLast? ≠ some '.' :=
  fun hlast => absurd (h _ (List.mem_of_getLast? hlast)) (by decide)

/-- Digits do not begin with a point. -/
theorem AllDigits.head?_ne {t : Text} (h : AllDigits t) : t.head? ≠ some '.' :=
  fun hhead => absurd (h _ (List.mem_of_head? hhead)) (by decide)

namespace Mantissa

variable (w : Mantissa)

/-- The mantissa without a point that nothing is behind. -/
theorem trim_eq : (if w.text.getLast? = some '.' then w.text.dropLast else w.text) =
    w.whole ++ w.plainFraction := by
  cases hf : w.fraction? with
  | none =>
    rw [w.text_of_none hf, if_neg w.whole_digits.getLast?_ne]
    simp [plainFraction, fraction, hf]
  | some fraction =>
    rw [w.text_of_some hf, plainFraction]
    by_cases hnil : w.fraction = []
    · rw [hnil, List.getLast?_concat, if_pos rfl, if_pos rfl, List.dropLast_concat, List.append_nil]
    · -- The last character is one of the digits behind the point.
      have hlast : (w.whole ++ '.' :: w.fraction).getLast? = w.fraction.getLast? := by
        rw [List.append_cons, List.getLast?_append_of_ne_nil _ hnil]
      rw [hlast, if_neg w.fraction_allDigits.getLast?_ne, if_neg hnil]

/-- A zero is put in front of a point that comes first. -/
theorem lead_append :
    (if (w.whole ++ w.plainFraction).head? = some '.' then ['0'] else []) ++
      (w.whole ++ w.plainFraction) = w.plainWhole ++ w.plainFraction := by
  by_cases hwhole : w.whole = []
  · -- Nothing else is in front, so there are digits behind.
    obtain ⟨fraction, hf, hne⟩ := w.some_digits.resolve_left (not_not_intro hwhole)
    simp [plainFraction, plainWhole, Mantissa.fraction, hf, hwhole, hne]
  · rw [List.head?_append_of_ne_nil _ hwhole, if_neg w.whole_digits.head?_ne, List.nil_append,
      plainWhole, if_neg hwhole]

end Mantissa

/-- What is handed on is a plain spelling of the same number. -/
theorem Spelling.plainText_text (w : Spelling) : plainText w.text = w.plain.text := by
  simp only [plainText, unsigned_text, takeWhile_body, dropWhile_body, head?_text_eq_minus_iff,
    Mantissa.trim_eq]
  rw [text_plain, ← Mantissa.lead_append]
  simp only [List.append_assoc]

example : plainText "+3.e4".toList = "3e4".toList := by decide

example : plainText "-.5e-2".toList = "-0.5e-2".toList := by decide

/-- It is the text that an error shows. -/
theorem Spelling.canonical_ofText (w : Spelling) : (ofText w.text).canonical = w.plain.text := by
  rw [ofText_text, text_plain]
  simp [canonical, Mantissa.plainWhole, Mantissa.plainFraction]

/-! ## The number that is made of it -/

/-- What is made of a plain spelling: the number that it denotes, or an error that says which limit
it is beyond. -/
def Spelling.value (w : Spelling) : Except DecimalError Decimal :=
  if 2 ^ 127 ≤ w.exponent then .error .exponentTooLarge
  else if w.exponent < -2 ^ 127 then .error .exponentTooSmall
  else if -2 ^ 63 ≤ w.scale ∧ w.scale < 2 ^ 63 then .ok ⟨w.digits, w.scale⟩
  else .error (.scaleOverflow w.text)

/-- A converter reads plain spellings. -/
def Converts (convert : Text → Except DecimalError Decimal) : Prop :=
  ∀ w : Spelling, w.Plain → convert w.text = w.value

namespace Spelling

variable {w : Spelling}

/-- A number is made of a spelling exactly if all of its parts can be held. -/
theorem value_eq_ok_iff {d : Decimal} :
    w.value = .ok d ↔ w.Held ∧ d = ⟨w.digits, w.scale⟩ := by
  unfold value
  constructor
  · intro h
    split_ifs at h with hlarge hsmall hscale
    exact ⟨⟨not_lt.mp hsmall, not_le.mp hlarge, hscale.1, hscale.2⟩, (Except.ok.inj h).symm⟩
  · rintro ⟨h, rfl⟩
    rw [if_neg (not_le.mpr h.exponent_lt), if_neg (not_lt.mpr h.exponent_ge),
      if_pos ⟨h.scale_ge, h.scale_lt⟩]

/-- Making it plain does not decide about that. -/
theorem held_plain : w.plain.Held ↔ w.Held := by
  have hscale := w.scale_plain
  constructor <;> rintro ⟨hge, hlt, hscale_ge, hscale_lt⟩
  · exact ⟨hge, hlt, hscale ▸ hscale_ge, hscale ▸ hscale_lt⟩
  · exact ⟨hge, hlt, hscale.symm ▸ hscale_ge, hscale.symm ▸ hscale_lt⟩

/-- The number that a spelling writes is the one that is made of its plain spelling. -/
theorem ofNumeral_ofText (w : Spelling) :
    Decimal.ofNumeral (.ofText w.text) = w.plain.value := by
  have hscale : ((ofText w.text).fraction.length : ℤ) - w.exponent = w.scale := by
    rw [ofText_text, scale]
  simp only [Decimal.ofNumeral, exponentValue_ofText, hscale, digits_ofText, canonical_ofText,
    Decimal.fitsBits_iff, value, exponent_plain, digits_plain, scale_plain, Nat.reduceSub]
  by_cases hlarge : 2 ^ 127 ≤ w.exponent
  · rw [if_pos (by omega), if_pos (by omega), if_pos hlarge]
  · by_cases hsmall : w.exponent < -2 ^ 127
    · rw [if_pos (by omega), if_neg (by omega), if_neg hlarge, if_pos hsmall]
    · rw [if_neg (by omega), ite_not, if_neg hlarge, if_neg hsmall]

/-- A converter gives the same when it is handed the plain text. -/
theorem convert_plainText {convert : Text → Except DecimalError Decimal}
    (hconvert : Converts convert) (w : Spelling) :
    convert (plainText w.text) = Decimal.ofNumeral (.ofText w.text) := by
  rw [plainText_text, hconvert _ w.plain_plain, ofNumeral_ofText]

end Spelling

/-- Taking a text apart and reading the parts is a converter. -/
theorem converts_ofText : Converts fun text => Decimal.ofNumeral (.ofText text) := by
  intro w hw
  change Decimal.ofNumeral (.ofText w.text) = _
  rw [Spelling.ofNumeral_ofText]
  unfold Spelling.value
  rw [w.exponent_plain, w.scale_plain, w.digits_plain, hw.text_plain]

end Numeral

namespace Parser

open Numeral

variable {p : Parser}

/-- After any calls, the call for a number that has found a numeral answers with the number that the
numeral denotes, whatever converter is handed its plain text. It does so if the exponent and the
scale are within their limits, and else fails with what the converter says and stays where it is. -/
theorem run_decimal_number {d : Document} {s : Segment} (hs : Segment.Reachable d s)
    (ops : List Op) (hp : (ofSegment s).run ops = p) (message : Parser → Text) {token : Segment}
    {p' : Parser} (htake : p.take? Token.numeral = some (token, p'))
    {convert : Text → Except DecimalError Decimal} (hconvert : Converts convert) :
    IsSpelled token.text ∧ ∀ w : Spelling, w.text = token.text →
      (∃ v : Spelling, v.Plain ∧ v.text = plainText token.text) ∧
      ((∃ value, convert (plainText token.text) = .ok value) ↔ w.Held) ∧
      (∀ value, convert (plainText token.text) = .ok value →
        value.digits = w.digits ∧ value.scale = w.scale ∧ value.number = w.number ∧
          p.perform (.decimal message) = (.decimal value, p')) ∧
      ∀ e, convert (plainText token.text) = .error e →
        p.perform (.decimal message) = (.failed ⟨message p, token, some e.message⟩, p) := by
  obtain ⟨hplaced, -⟩ := run_placed (ofSegment_placed hs.wellPlaced.1) ops
  rw [hp] at hplaced
  refine ⟨(hplaced.isLongest_of_take? htake).spelled, fun w hw => ?_⟩
  have hconverted := w.convert_plainText hconvert
  have hvalue : ∀ value, convert (plainText token.text) = .ok value ↔
      w.Held ∧ value = ⟨w.digits, w.scale⟩ := by
    intro value
    rw [← hw, hconverted, w.ofNumeral_ofText, Spelling.value_eq_ok_iff, Spelling.held_plain,
      w.digits_plain, w.scale_plain]
  rw [hw] at hconverted
  refine ⟨⟨w.plain, w.plain_plain, ?_⟩, ?_, ?_, ?_⟩
  · rw [← hw, w.plainText_text]
  · constructor
    · rintro ⟨value, h⟩
      exact ((hvalue value).mp h).1
    · exact fun h => ⟨_, (hvalue _).mpr ⟨h, rfl⟩⟩
  · intro value h
    obtain ⟨-, rfl⟩ := (hvalue value).mp h
    exact ⟨rfl, rfl, w.number_eq, perform_decimal_of_ok htake (hconverted ▸ h)⟩
  · intro e h
    exact perform_decimal_of_error htake (hconverted ▸ h)

/-- The scale is the greatest that there is, and the number can just be held. -/
theorem decimal_number_greatest_scale :
    let p := (ofSegment (.ofText "x-.50e-9223372036854775805".toList [] ⟨0, 0⟩)).run [.advance 1]
    ∃ value p', p.perform (.decimal fun _ => []) = (.decimal value, p') ∧
      value.digits = -50 ∧ value.scale = 2 ^ 63 - 1 ∧
      value.number = -(1 / 2) * 10 ^ (-9223372036854775805 : ℤ) := by
  intro p
  let w : Spelling :=
    { sign := .minus
      mantissa := ⟨[], some ['5', '0'], by decide, by simp [AllDigits],
        .inr ⟨_, rfl, List.cons_ne_nil _ _⟩⟩
      exponent? := some ⟨'e', .minus, "9223372036854775805".toList, .inr rfl, by decide,
        List.cons_ne_nil _ _⟩ }
  have hexponent : w.exponent = -9223372036854775805 := by decide +kernel
  have hscale : w.scale = 2 ^ 63 - 1 := by
    rw [Spelling.scale, hexponent]
    decide
  have hheld : w.Held := by constructor <;> simp [hexponent, hscale]
  have hfound : (p.take? Token.numeral).map (·.1.text) = some w.text := by decide +kernel
  obtain ⟨⟨token, p'⟩, htake, htext⟩ := Option.map_eq_some_iff.mp hfound
  obtain ⟨-, hall⟩ := run_decimal_number
    (.root (d := ⟨"x-.50e-9223372036854775805".toList, [], ⟨0, 0⟩⟩)) [.advance 1] (p := p) rfl
    (fun _ => []) htake converts_ofText
  obtain ⟨-, hiff, hvalue, -⟩ := hall w htext.symm
  obtain ⟨value, h⟩ := hiff.mpr hheld
  obtain ⟨hdigits, hscale', hnumber, hperform⟩ := hvalue value h
  refine ⟨value, p', hperform, hdigits, hscale'.trans hscale, ?_⟩
  have hfive : Digits.valueOf '5' = 5 := rfl
  have hzero : Digits.valueOf '0' = 0 := rfl
  have hmantissa : (w.sign.factor : ℚ) *
      (Digits.value 10 w.mantissa.whole + fractionValue w.mantissa.fraction) = -(1 / 2) := by
    norm_num [w, Sign.factor, Mantissa.fraction, fractionValue, hfive, hzero]
  rw [hnumber, Spelling.number, hexponent, hmantissa]

end Parser

end SourceText
