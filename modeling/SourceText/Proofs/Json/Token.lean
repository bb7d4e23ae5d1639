import Mathlib.Data.Nat.Digits.Defs
import SourceText.Json.Quote
import SourceText.Json.Token
import SourceText.Proofs.DecimalValue

/-!
# What the tokens of JSON are

The grammar of blanks, numbers and strings, and that each reader takes all of what the grammar
derives, whatever comes behind it.

A number ends where no character comes that could go on with it. That is so before a blank, a comma,
a closing bracket or brace, and at the end of the text (`Delimited`). The digits that a count is
written with are a number (`isWhole_ofNat`) and are read back as the count (`readNumber_ofNat`,
`count?_ofNat`).

A string spells a text when the pieces between its quotes stand for the characters of the text, one
after the other (`Spells`). A character may be spelled in several ways: as itself, as a letter
behind a backslash, as its UTF-16 unit or its two units. The reader gives back the text whichever
are used (`readString_of_spells`), and what is written for a text spells it
(`spells_flatMap_escape`). In a string that is passed over, units may stand that are no character's
(`IsBody`).
-/

namespace SourceText

/-! ## The digits of a number -/

namespace Digits

/-- Each of the sixteen digits is worth its number. -/
theorem valueOf_digitChar : ∀ d < 16, valueOf d.digitChar = d := by decide

/-- The digits of a number are read back as the number. -/
theorem value_toDigits {base : Nat} (hbase : 1 < base) (hle : base ≤ 16) (n : Nat) :
    value base (Nat.toDigits base n) = n := by
  induction n using Nat.strongRecOn with
  | ind n ih =>
    by_cases hn : n < base
    · simp [Nat.toDigits_of_lt_base hn, Digits.value, valueOf_digitChar n (by omega)]
    · have hmod : n % base < base := Nat.mod_lt n (by omega)
      rw [Nat.toDigits_of_base_le hbase (by omega), value_concat,
        ih (n / base) (Nat.div_lt_self (by omega) hbase), valueOf_digitChar _ (by omega)]
      exact Nat.div_add_mod' n base

/-- Only zero itself is written with a zero in front. -/
theorem head?_toDigits_ne_zero {n : Nat} (hn : n ≠ 0) : (Nat.toDigits 10 n).head? ≠ some '0' := by
  induction n using Nat.strongRecOn with
  | ind n ih =>
    by_cases hlt : n < 10
    · simpa [Nat.toDigits_of_lt_base hlt] using hn
    · rw [Nat.toDigits_of_base_le (by decide) (by omega),
        List.head?_append_of_ne_nil _ Nat.toDigits_ne_nil]
      exact ih (n / 10) (by omega) (by omega)

end Digits

namespace Json

open Numeral (AllDigits Sign Signless)

/-- A reader goes on where another has succeeded. -/
theorem ok_bind {ε α β : Type} (a : α) (f : α → Except ε β) : (Except.ok a >>= f) = f a := rfl

/-! ## Runs of characters -/

/-- The text does not start with a character of a kind. -/
def Stops (p : Char → Bool) (text : Text) : Prop := ∀ c ∈ text.head?, p c = false

section Runs

variable {p : Char → Bool} {run rest : Text}

/-- There is no run where the text starts with none of its characters. -/
theorem takeWhile_of_stops (h : Stops p rest) : rest.takeWhile p = [] := by
  cases rest with
  | nil => rfl
  | cons c rest => rw [List.takeWhile_cons_of_neg (by simp [h c rfl])]

/-- In front of such a text nothing is dropped. -/
theorem dropWhile_of_stops (h : Stops p rest) : rest.dropWhile p = rest := by
  cases rest with
  | nil => rfl
  | cons c rest => rw [List.dropWhile_cons_of_neg (by simp [h c rfl])]

/-- A run is taken as far as such a text. -/
theorem takeWhile_run (hrun : ∀ c ∈ run, p c = true) (h : Stops p rest) :
    (run ++ rest).takeWhile p = run := by
  rw [List.takeWhile_append_of_pos hrun, takeWhile_of_stops h, List.append_nil]

/-- A run is dropped as far as such a text. -/
theorem dropWhile_run (hrun : ∀ c ∈ run, p c = true) (h : Stops p rest) :
    (run ++ rest).dropWhile p = rest := by
  rw [List.dropWhile_append_of_pos hrun, dropWhile_of_stops h]

end Runs

/-! ## Blanks -/

/-- Whether a character is a blank of JSON. -/
def isBlank (c : Char) : Bool := c == ' ' || c == '\n' || c == '\t' || c == '\r'

/-- A text of blanks. -/
def Blanks (text : Text) : Prop := ∀ c ∈ text, isBlank c = true

instance : DecidablePred Blanks := fun _ => decidable_of_iff _ List.all_eq_true

/-- Blanks may be none at all. -/
theorem blanks_nil : Blanks [] := List.forall_mem_nil _

/-- Blanks in front of a text are skipped with those that it starts with. -/
theorem skipBlanks_append {b : Text} (hb : Blanks b) (rest : Text) :
    skipBlanks (b ++ rest) = skipBlanks rest :=
  List.dropWhile_append_of_pos hb

/-- Nothing is skipped in front of any other character. -/
theorem skipBlanks_cons {c : Char} (hc : isBlank c = false) (rest : Text) :
    skipBlanks (c :: rest) = c :: rest :=
  List.dropWhile_cons_of_neg (by simpa [isBlank] using hc)

/-- Of blanks alone nothing is left. -/
theorem skipBlanks_blanks {b : Text} (hb : Blanks b) : skipBlanks b = [] := by
  rw [← List.append_nil b, skipBlanks_append hb, skipBlanks, List.dropWhile_nil]

/-- Whether a character may come right behind a value. -/
def isDelimiter (c : Char) : Bool := isBlank c || c == ',' || c == ']' || c == '\x7d'

/-- The text ends, or starts with what may come behind a value. -/
def Delimited (text : Text) : Prop := ∀ c ∈ text.head?, isDelimiter c = true

/-- A text that starts with a delimiter is delimited. -/
theorem delimited_cons {c : Char} (hc : isDelimiter c = true) (rest : Text) :
    Delimited (c :: rest) := by
  simpa [Delimited] using hc

/-- Blanks may come before the end of a value's surroundings. -/
theorem Delimited.append {b rest : Text} (hb : Blanks b) (h : Delimited rest) :
    Delimited (b ++ rest) := by
  cases b with
  | nil => exact h
  | cons c b => exact delimited_cons (by simp [isDelimiter, hb c (by simp)]) _

/-- There are seven delimiters: four blanks, a comma, and what ends an array or an object. -/
theorem eq_of_isDelimiter {c : Char} (h : isDelimiter c = true) :
    c ∈ [' ', '\n', '\t', '\r', ',', ']', '\x7d'] := by
  simpa [isDelimiter, isBlank, or_assoc] using h

/-- No delimiter is of a kind that none of the seven is of. -/
theorem Delimited.stops {p : Char → Bool} {rest : Text} (h : Delimited rest)
    (hp : [' ', '\n', '\t', '\r', ',', ']', '\x7d'].all (!p ·) = true) : Stops p rest := by
  intro c hc
  simpa using List.all_eq_true.mp hp c (eq_of_isDelimiter (h c hc))

/-! ## Numbers -/

/-- The digits of a number before its point, of which none is a zero in front of others. -/
structure IsWhole (text : Text) : Prop where
  ne_nil : text ≠ []
  digits : AllDigits text
  of_zero : text.head? = some '0' → text.tail = []

/-- A point with digits behind it, or nothing. -/
inductive IsFraction : Text → Prop
  | absent : IsFraction []
  | present {digits : Text} (hne : digits ≠ []) (h : AllDigits digits) : IsFraction ('.' :: digits)

/-- An exponent, or nothing. -/
inductive IsExponent : Text → Prop
  | absent : IsExponent []
  | present (e : Numeral.Exponent) : IsExponent e.text

/-- A number: a minus sign or none, digits, and what may come behind them. -/
inductive IsNumber : Text → Prop
  | mk {sign whole fraction exponent : Text} (hsign : sign = [] ∨ sign = ['-'])
      (hwhole : IsWhole whole) (hfraction : IsFraction fraction) (hexponent : IsExponent exponent) :
      IsNumber (sign ++ (whole ++ (fraction ++ exponent)))

/-- Whether a character starts an exponent. -/
def isExponentLetter (c : Char) : Bool := c == 'e' || c == 'E'

section Numbers

variable (atEnd : Failure) {rest : Text}

/-- The digits before the point are read as far as there are digits. -/
theorem readWhole_append {whole : Text} (h : IsWhole whole) (hrest : Stops Char.isDigit rest) :
    readWhole atEnd (whole ++ rest) = .ok (whole, rest) := by
  rw [readWhole, takeWhile_run h.digits hrest, dropWhile_run h.digits hrest]
  split
  · exact absurd rfl h.ne_nil
  · exact absurd rfl h.ne_nil
  · exact absurd (h.of_zero rfl) (List.cons_ne_nil _ _)
  · rfl

/-- Without a point there is no fraction. -/
theorem readFraction_none (hrest : Stops (· == '.') rest) :
    readFraction atEnd rest = .ok (none, rest) := by
  unfold readFraction
  split
  · simpa using hrest '.' rfl
  · rfl

/-- A fraction is read as far as its digits go. -/
theorem readFraction_append {fraction : Text} (h : IsFraction fraction)
    (hdigit : Stops Char.isDigit rest) (hpoint : Stops (· == '.') rest) :
    ∃ f, readFraction atEnd (fraction ++ rest) = .ok (f, rest) := by
  cases h with
  | absent => exact ⟨none, readFraction_none atEnd hpoint⟩
  | @present digits hne hdigits =>
    refine ⟨some digits, ?_⟩
    rw [List.cons_append, readFraction, takeWhile_run hdigits hdigit, dropWhile_run hdigits hdigit]
    split
    · exact absurd rfl hne
    · exact absurd rfl hne
    · rfl

/-- Without its letter there is no exponent. -/
theorem readExponent_none (hrest : Stops isExponentLetter rest) :
    readExponent atEnd rest = .ok (none, rest) := by
  unfold readExponent
  split
  · rfl
  · have hletter := hrest _ rfl
    simp only [isExponentLetter, Bool.or_eq_false_iff, beq_eq_false_iff_ne] at hletter
    rw [if_neg (by simp [hletter])]

/-- Digits begin with no sign, whatever is behind them. -/
theorem signless_append {digits : Text} (h : AllDigits digits) (hne : digits ≠ []) (rest : Text) :
    Signless (digits ++ rest) := by
  rw [Signless, List.head?_append_of_ne_nil _ hne]
  exact h.signless

/-- A sign in front of digits is dropped, if there is one. -/
theorem drop_sign (s : Sign) {text : Text} (h : Signless text) :
    (if (s.text ++ text).head? = some '+' ∨ (s.text ++ text).head? = some '-' then
      (s.text ++ text).drop 1 else s.text ++ text) = text := by
  cases s with
  | none => exact if_neg (not_or.mpr h)
  | plus | minus => rfl

/-- An exponent is read with its sign, as far as its digits go. -/
theorem readExponent_append {exponent : Text} (h : IsExponent exponent)
    (hletter : Stops isExponentLetter rest) (hdigit : Stops Char.isDigit rest) :
    ∃ x, readExponent atEnd (exponent ++ rest) = .ok (x, rest) := by
  cases h with
  | absent => exact ⟨none, readExponent_none atEnd hletter⟩
  | present e =>
    have hsign := drop_sign e.sign (signless_append e.all_digits e.some_digits rest)
    rw [Numeral.Exponent.text, List.cons_append, List.append_assoc, readExponent,
      if_pos e.letter_eq.symm]
    simp only [hsign, takeWhile_run e.all_digits hdigit, dropWhile_run e.all_digits hdigit]
    split
    · exact absurd ‹_› e.some_digits
    · exact absurd ‹_› e.some_digits
    · exact ⟨_, rfl⟩

/-- A number begins with a digit. -/
theorem IsWhole.exists_cons {whole : Text} (h : IsWhole whole) :
    ∃ c digits, whole = c :: digits ∧ c.isDigit = true := by
  obtain ⟨c, digits, rfl⟩ := List.exists_cons_of_ne_nil h.ne_nil
  exact ⟨c, digits, rfl, h.digits c List.mem_cons_self⟩

/-- A run that a point ends does not go on into a fraction. -/
theorem IsFraction.stops {p : Char → Bool} {fraction : Text} (h : IsFraction fraction)
    (hp : p '.' = false) (hrest : Stops p rest) : Stops p (fraction ++ rest) := by
  cases h with
  | absent => exact hrest
  | present => simpa [Stops] using hp

/-- A run that the letter of an exponent ends does not go on into one. -/
theorem IsExponent.stops {p : Char → Bool} {exponent : Text} (h : IsExponent exponent)
    (hp : p 'E' = false ∧ p 'e' = false) (hrest : Stops p rest) : Stops p (exponent ++ rest) := by
  cases h with
  | absent => exact hrest
  | present e =>
    rcases e.letter_eq with hletter | hletter
    · simpa [Stops, Numeral.Exponent.text, hletter] using hp.1
    · simpa [Stops, Numeral.Exponent.text, hletter] using hp.2

/-- A number is read as far as it goes. -/
theorem readNumber_append {number : Text} (h : IsNumber number) (hrest : Delimited rest) :
    ∃ n, readNumber atEnd (number ++ rest) = .ok (n, rest) := by
  obtain ⟨hsign, hwhole, hfraction, hexponent⟩ := h
  rename_i sign whole fraction exponent
  have hdigit : Stops Char.isDigit rest := hrest.stops (by decide)
  have hpoint : Stops (· == '.') rest := hrest.stops (by decide)
  have hletter : Stops isExponentLetter rest := hrest.stops (by decide)
  have hunsigned : ∀ tail, (if (sign ++ (whole ++ tail)).head? == some '-' then
      (sign ++ (whole ++ tail)).drop 1 else sign ++ (whole ++ tail)) = whole ++ tail := by
    intro tail
    rcases hsign with rfl | rfl
    · have hsignless := signless_append hwhole.digits hwhole.ne_nil tail
      exact if_neg (by simpa using hsignless.2)
    · rfl
  -- Each part stops in front of the next one or of the delimiter.
  obtain ⟨f, hf⟩ := readFraction_append atEnd hfraction
    (hexponent.stops (by decide) hdigit) (hexponent.stops (by decide) hpoint)
  obtain ⟨x, hx⟩ := readExponent_append atEnd hexponent hletter hdigit
  have hw := readWhole_append atEnd hwhole
    (hfraction.stops (by decide) (hexponent.stops (by decide) hdigit))
  simp only [List.append_assoc, readNumber, hunsigned, hw, hf, hx, ok_bind]
  exact ⟨_, rfl⟩

end Numbers

/-! ## Counts -/

/-- The decimal digits of a number have no zero in front. -/
theorem isWhole_ofNat (n : Nat) : IsWhole (Text.ofNat n) where
  ne_nil := Nat.toDigits_ne_nil
  digits _ hc := Nat.isDigit_of_mem_toDigits (by decide) (by decide) hc
  of_zero h := by
    by_cases hn : n = 0
    · subst hn
      rfl
    · exact absurd h (Digits.head?_toDigits_ne_zero hn)

/-- The digits of a count are read as they are. -/
theorem readNumber_ofNat (atEnd : Failure) {rest : Text} (n : Nat) (hrest : Delimited rest) :
    readNumber atEnd (Text.ofNat n ++ rest) = .ok (⟨false, Text.ofNat n, none, none⟩, rest) := by
  have hwhole := isWhole_ofNat n
  have hsign : ((Text.ofNat n ++ rest).head? == some '-') = false :=
    beq_false_of_ne (signless_append hwhole.digits hwhole.ne_nil rest).2
  have hw := readWhole_append atEnd hwhole (hrest.stops (by decide))
  have hf := readFraction_none atEnd (hrest.stops (p := (· == '.')) (by decide))
  have hx := readExponent_none atEnd (hrest.stops (p := isExponentLetter) (by decide))
  simp only [readNumber, hsign, Bool.false_eq_true, if_false, hw, hf, hx, ok_bind]
  rfl

/-- A count within the limit is the value of its digits. -/
theorem count?_ofNat {limit n : Nat} (h : n ≤ limit) :
    Number.count? limit ⟨false, Text.ofNat n, none, none⟩ = some n := by
  have hvalue : Digits.value 10 (Text.ofNat n) = n :=
    Digits.value_toDigits (by decide) (by decide) n
  simp [Number.count?, hvalue, h]

/-! ## Strings -/

/-- Four hexadecimal digits, which write a UTF-16 unit. -/
structure IsUnitText (digits : Text) : Prop where
  length : digits.length = 4
  isHex : digits.all Digits.isHex = true

instance : DecidablePred IsUnitText := fun digits =>
  decidable_of_iff (digits.length = 4 ∧ digits.all Digits.isHex = true)
    ⟨fun h => ⟨h.1, h.2⟩, fun h => ⟨h.length, h.isHex⟩⟩

/-- How a character may be written between the quotes of a string. -/
inductive SpellsChar : Text → Char → Prop
  /-- As itself. -/
  | plain {c : Char} (hquote : c ≠ '"') (hbackslash : c ≠ '\\') (h : 0x20 ≤ c.toNat) :
      SpellsChar [c] c
  /-- As a letter behind a backslash. -/
  | letter {a c : Char} (h : charOfEscape? a = some c) : SpellsChar ['\\', a] c
  /-- As its UTF-16 unit. -/
  | unit {digits : Text} {c : Char} (hdigits : IsUnitText digits)
      (h : Digits.value 16 digits = c.toNat) : SpellsChar ('\\' :: 'u' :: digits) c
  /-- As the two UTF-16 units that it takes. -/
  | pair {high low : Text} {c : Char} (hhigh : IsUnitText high) (hlow : IsUnitText low)
      (high_range : 0xD800 ≤ Digits.value 16 high ∧ Digits.value 16 high ≤ 0xDBFF)
      (low_range : 0xDC00 ≤ Digits.value 16 low ∧ Digits.value 16 low ≤ 0xDFFF)
      (h : 0x10000 + (Digits.value 16 high - 0xD800) * 0x400 + (Digits.value 16 low - 0xDC00) =
        c.toNat) :
      SpellsChar ('\\' :: 'u' :: (high ++ '\\' :: 'u' :: low)) c

/-- What stands between the quotes of a string, and the text that it stands for. -/
inductive Spells : Text → Text → Prop
  | nil : Spells [] []
  | cons {piece body text : Text} {c : Char} (hpiece : SpellsChar piece c)
      (hbody : Spells body text) : Spells (piece ++ body) (c :: text)

/-- What may stand between the quotes of a string whose text is of no concern. Its units need not be
those of a character. -/
inductive IsBody : Text → Prop
  | nil : IsBody []
  | plain {c : Char} {body : Text} (hquote : c ≠ '"') (hbackslash : c ≠ '\\') (h : 0x20 ≤ c.toNat)
      (hbody : IsBody body) : IsBody (c :: body)
  | letter {a : Char} {body : Text} (h : (charOfEscape? a).isSome) (hbody : IsBody body) :
      IsBody ('\\' :: a :: body)
  | unit {digits body : Text} (hdigits : IsUnitText digits) (hbody : IsBody body) :
      IsBody ('\\' :: 'u' :: (digits ++ body))

section Strings

variable {digits rest : Text} {c : Char}

/-- Four hexadecimal digits are read as a unit, whatever is behind them. -/
theorem readUnit_append (h : IsUnitText digits) (rest : Text) :
    readUnit (digits ++ rest) = .ok (Digits.value 16 digits, rest) := by
  have hbytes : ¬ Text.byteLength (digits ++ rest) < 4 := by
    have := Text.length_le_byteLength (digits ++ rest)
    simp only [List.length_append, h.length] at this
    omega
  have htake : (digits ++ rest).take 4 = digits := by rw [← h.length, List.take_left']; rfl
  have hdrop : (digits ++ rest).drop 4 = rest := by rw [← h.length, List.drop_left']; rfl
  rw [readUnit, if_neg hbytes, htake, hdrop, if_pos ⟨h.length, h.isHex⟩]

/-- The unit of a character is none of the halves of a pair. -/
theorem not_surrogate (c : Char) : ¬ (0xDC00 ≤ c.toNat ∧ c.toNat ≤ 0xDFFF) ∧
    ¬ (0xD800 ≤ c.toNat ∧ c.toNat ≤ 0xDBFF) := by
  have := c.valid
  simp only [UInt32.isValidChar, Nat.isValidChar, Char.toNat] at this ⊢
  omega

/-- The letters that stand for a character behind a backslash are others than that of a unit. -/
theorem letter_ne_u {a : Char} (h : (charOfEscape? a).isSome) : a ≠ 'u' := by
  rintro rfl
  exact absurd h (by decide)

/-- What a backslash introduces is read as the character that it spells. -/
theorem readEscape_spelled {piece : Text} (h : SpellsChar ('\\' :: piece) c) (rest : Text) :
    readEscape (piece ++ rest) = .ok (c, rest) := by
  cases h with
  | plain _ hbackslash => exact absurd rfl hbackslash
  | letter ha =>
    rw [List.cons_append, List.nil_append, readEscape, if_neg (letter_ne_u (by simp [ha])), ha]
  | unit hdigits hvalue =>
    obtain ⟨hlow, hhigh⟩ := not_surrogate c
    simp only [List.cons_append, readEscape, if_true, readUnit_append hdigits, hvalue, if_neg hlow,
      if_neg hhigh, Char.ofNat_toNat]
  | pair hhigh hlow high_range low_range hvalue =>
    rename_i high low
    have hnot : ¬ (0xDC00 ≤ Digits.value 16 high ∧ Digits.value 16 high ≤ 0xDFFF) := by omega
    simp only [List.cons_append, List.append_assoc, readEscape, if_true, readUnit_append hhigh,
      if_neg hnot, if_pos high_range, readSecondUnit, readUnit_append hlow, if_pos low_range,
      hvalue, Char.ofNat_toNat]

/-- Reading a string takes one step for each character. -/
theorem readChars_spelled {piece : Text} (h : SpellsChar piece c) (n : Nat) (rest : Text) :
    readChars (n + 1) (piece ++ rest) =
      (readChars n rest).map fun (text, rest) => (c :: text, rest) := by
  -- The reader tells pieces apart by whether they start with a backslash.
  by_cases hplain : piece.head? = some '\\'
  · obtain ⟨escaped, rfl⟩ := List.head?_eq_some_iff.mp hplain
    rw [List.cons_append, readChars, if_neg (by decide), if_pos rfl, readEscape_spelled h]
  · cases h with
    | plain hquote hbackslash hc =>
      rw [List.singleton_append, readChars, if_neg hquote, if_neg hbackslash, if_neg (by omega)]
    | letter | unit | pair => exact absurd rfl hplain

/-- What spells a text is read as the text, up to the quote behind it. -/
theorem readChars_spells {body text : Text} (h : Spells body text) {n : Nat}
    (hn : body.length < n) : readChars n (body ++ '"' :: rest) = .ok (text, rest) := by
  induction h generalizing n with
  | nil =>
    obtain ⟨n, rfl⟩ := Nat.exists_eq_add_of_lt hn
    rfl
  | @cons piece body text c hpiece hbody ih =>
    have hpos : 0 < piece.length := by cases hpiece <;> simp
    rw [List.length_append] at hn
    obtain ⟨n, rfl⟩ := Nat.exists_eq_add_one_of_ne_zero (by omega : n ≠ 0)
    rw [List.append_assoc, readChars_spelled hpiece, ih (by omega)]
    rfl

/-- A string is read as the text that it spells. -/
theorem readString_of_spells {body text : Text} (h : Spells body text) (rest : Text) :
    readString (body ++ '"' :: rest) = .ok (text, rest) :=
  readChars_spells h (by simp)

/-- The body of a string is passed over up to the quote behind it. -/
theorem skipChars_of_isBody {body : Text} (h : IsBody body) {n : Nat} (hn : body.length < n) :
    skipChars n (body ++ '"' :: rest) = .ok rest := by
  induction h generalizing n with
  | nil =>
    obtain ⟨n, rfl⟩ := Nat.exists_eq_add_of_lt hn
    rfl
  | plain hquote hbackslash hc hbody ih =>
    rw [List.length_cons] at hn
    obtain ⟨n, rfl⟩ := Nat.exists_eq_add_one_of_ne_zero (by omega : n ≠ 0)
    rw [List.cons_append, skipChars, if_neg hquote, if_neg hbackslash, if_neg (by omega),
      ih (by omega)]
  | letter ha hbody ih =>
    simp only [List.length_cons] at hn
    obtain ⟨n, rfl⟩ := Nat.exists_eq_add_one_of_ne_zero (by omega : n ≠ 0)
    simp only [List.cons_append, skipChars, skipEscape, if_neg (letter_ne_u ha), if_pos ha]
    exact ih (by omega)
  | unit hdigits hbody ih =>
    simp only [List.length_cons, List.length_append] at hn
    obtain ⟨n, rfl⟩ := Nat.exists_eq_add_one_of_ne_zero (by omega : n ≠ 0)
    simp only [List.cons_append, List.append_assoc, skipChars, skipEscape, readUnit_append hdigits]
    exact ih (by omega)

/-- A string of no concern is passed over. -/
theorem skipString_of_isBody {body : Text} (h : IsBody body) (rest : Text) :
    skipString (body ++ '"' :: rest) = .ok rest :=
  skipChars_of_isBody h (by simp)

/-! ## Strings as they are written -/

/-- The unit of a control character below the sixteenth is written with three zeros in front. -/
theorem unit_of_lt_sixteen : ∀ n < 0x10, IsUnitText (['0', '0', '0'] ++ Nat.toDigits 16 n) ∧
    Digits.value 16 (['0', '0', '0'] ++ Nat.toDigits 16 n) = n := by decide

/-- The unit of any later control character is written with two. -/
theorem unit_of_lt_space : ∀ n < 0x20, 0x10 ≤ n → IsUnitText (['0', '0'] ++ Nat.toDigits 16 n) ∧
    Digits.value 16 (['0', '0'] ++ Nat.toDigits 16 n) = n := by decide

/-- What is written for a character spells it. -/
theorem spellsChar_escape (c : Char) : SpellsChar (escape c) c := by
  unfold escape
  split_ifs with h₁ h₂ h₃ h₄ h₅ h₆ h₇ h₈ h₉
  · exact .letter (by rw [h₁]; rfl)
  · exact .letter (by rw [h₂]; rfl)
  · exact .letter (by rw [h₃]; rfl)
  · exact .letter (by rw [h₄]; rfl)
  · exact .letter (by rw [h₅]; rfl)
  · exact .letter (by rw [h₆]; rfl)
  · exact .letter (by rw [h₇]; rfl)
  · obtain ⟨hunit, hvalue⟩ := unit_of_lt_sixteen _ h₈
    exact .unit hunit hvalue
  · obtain ⟨hunit, hvalue⟩ := unit_of_lt_space _ h₉ (by omega)
    exact .unit hunit hvalue
  · exact .plain h₁ h₂ (by omega)

/-- What is written between the quotes spells the text. -/
theorem spells_flatMap_escape (text : Text) : Spells (text.flatMap escape) text := by
  induction text with
  | nil => exact .nil
  | cons c text ih => exact .cons (spellsChar_escape c) ih

end Strings

end Json

end SourceText
