import SourceText.Text.Digits

/-!
# Decimal numbers

A `Numeral` is the text of a decimal number taken apart: a sign, digits before and after the point,
and an exponent. A `Decimal` is the number: an integer, and how many of its digits follow the point.
An exponent has to fit in 128 bits, and the count of digits after the point in 64.
-/

namespace SourceText

/-- The parts of a numeral. -/
structure Numeral where
  /-- Whether a minus sign stands in front. -/
  negative : Bool
  /-- The digits before the point. -/
  whole : Text
  /-- The digits after the point. -/
  fraction : Text
  /-- The exponent as written, from its letter on, or nothing. -/
  exponent : Text
  deriving DecidableEq, Repr

namespace Numeral

/-- Whether `c` begins an exponent. -/
def isExponentMark (c : Char) : Bool := c == 'e' || c == 'E'

/-- A text without the sign at its start. -/
def unsigned : Text → Text
  | '+' :: rest => rest
  | '-' :: rest => rest
  | text => text

/-- The parts of a text that is a numeral. -/
def ofText (text : Text) : Numeral :=
  let body := unsigned text
  let mantissa := body.takeWhile (!isExponentMark ·)
  { negative := text.head? == some '-'
    whole := mantissa.takeWhile (· != '.')
    fraction := (mantissa.dropWhile (· != '.')).drop 1
    exponent := body.dropWhile (!isExponentMark ·) }

/-- The numeral written without a plus sign in front and with digits on both sides of its point, if
it has one. -/
def canonical (n : Numeral) : Text :=
  (if n.negative then ['-'] else []) ++ (if n.whole.isEmpty then ['0'] else n.whole) ++
    (if n.fraction.isEmpty then [] else '.' :: n.fraction) ++ n.exponent

/-- The integer that the digits write, the point left out. -/
def digits (n : Numeral) : Int :=
  let value : Int := Digits.value 10 (n.whole ++ n.fraction)
  if n.negative then -value else value

/-- The integer that the exponent writes. -/
def exponentValue (n : Numeral) : Int :=
  match n.exponent with
  | [] => 0
  | _ :: written =>
    let value : Int := Digits.value 10 (unsigned written)
    if written.head? = some '-' then -value else value

end Numeral

/-- A decimal number: `digits` divided by ten to the power of `scale`. -/
structure Decimal where
  /-- The digits as an integer, the point left out. -/
  digits : Int
  /-- How many of the digits follow the point; below zero, how many zeros follow the digits. -/
  scale : Int
  deriving DecidableEq, Repr

/-- Why a numeral is no number that can be held. -/
inductive DecimalError where
  /-- The exponent is too great. -/
  | exponentTooLarge
  /-- The exponent is too far below zero. -/
  | exponentTooSmall
  /-- The digits after the point, less the exponent, are too many or too few. -/
  | scaleOverflow (numeral : Text)
  deriving DecidableEq, Repr

/-- The wording of the failure. -/
def DecimalError.message : DecimalError → Text
  | exponentTooLarge => "number too large to fit in target type".toList
  | exponentTooSmall => "number too small to fit in target type".toList
  | scaleOverflow numeral => "Exponent overflow when parsing '".toList ++ numeral ++ ['\'']

namespace Decimal

/-- Whether a number fits in a signed word of so many bits. -/
def fitsBits (bits : Nat) (n : Int) : Bool :=
  let least : Int := -Nat.pow 2 (bits - 1)
  decide (least ≤ n) && decide (n < -least)

/-- The number that a numeral writes. -/
def ofNumeral (n : Numeral) : Except DecimalError Decimal :=
  let exponent := n.exponentValue
  let scale := n.fraction.length - exponent
  if ¬ fitsBits 128 exponent then
    .error (if 0 < exponent then .exponentTooLarge else .exponentTooSmall)
  else if ¬ fitsBits 64 scale then .error (.scaleOverflow n.canonical)
  else .ok ⟨n.digits, scale⟩

/-- Digits with a point before the last `scale` of them, and zeros in front if there are too few. -/
def plain (digits : Text) (scale : Nat) : Text :=
  let digits := List.replicate (scale + 1 - digits.length) '0' ++ digits
  digits.take (digits.length - scale) ++ '.' :: digits.drop (digits.length - scale)

/-- Digits with a point after the first, and an exponent. -/
def scientific (digits : Text) (scale : Nat) : Text :=
  let exponent : Int := digits.length - 1 - scale
  digits.take 1 ++ (if digits.length ≤ 1 then [] else '.' :: digits.drop 1) ++
    'E' :: Text.ofInt exponent

/-- A number without its sign. Up to five zeros may stand between the point and the digits, and up
to fifteen after the digits; beyond that an exponent is written. -/
def displayUnsigned (digits : Nat) (scale : Int) : Text :=
  let text := Text.ofNat digits
  match if digits = 0 then 0 else scale with
  | .ofNat 0 => text
  | .ofNat scale => if text.length + 5 < scale then scientific text scale else plain text scale
  | .negSucc n =>
    if 15 < n + 1 then text ++ "e+".toList ++ Text.ofNat (n + 1)
    else text ++ List.replicate (n + 1) '0'

/-- The number as it is shown. -/
def display (d : Decimal) : Text :=
  (if d.digits < 0 then ['-'] else []) ++ displayUnsigned d.digits.natAbs d.scale

end Decimal

end SourceText
