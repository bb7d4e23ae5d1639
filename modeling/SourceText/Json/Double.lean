import SourceText.Text.Digits

/-!
# Double-precision numbers

A decimal numeral is made into a double-precision number in three steps: its first digits, as many
as fit in 64 bits, are rounded to a double, the power of ten is rounded to a double, and the product
of the two is rounded once more. `exceeds` says when the product is beyond the greatest double. It
may be so where the numeral itself is not, and the other way round.
-/

namespace SourceText.Json.Double

/-- The double nearest to a natural number, which has 53 significant bits. Of two that are equally
near it is the one that ends in a zero bit. -/
def nearest (n : Nat) : Nat :=
  let unit := Nat.pow 2 (n.log2 + 1 - 53)
  let below := n / unit
  let rest := n % unit
  if unit < 2 * rest ∨ (2 * rest = unit ∧ below % 2 = 1) then (below + 1) * unit else below * unit

/-- The least magnitude that rounds to no double: half a step above the greatest of them. -/
def overflow : Nat := Nat.pow 2 1024 - Nat.pow 2 970

/-- Appends digits to a number as long as it stays below `2 ^ 64`, and gives the digits that are
left. -/
def appendDigits (n : Nat) : Text → Nat × Text
  | [] => (n, [])
  | c :: rest =>
    let next := n * 10 + Digits.valueOf c
    if next < Nat.pow 2 64 then appendDigits next rest else (n, c :: rest)

/-- The first digits of a numeral, and the power of ten that they are to be multiplied by. A digit
before the point that is left out counts as a zero. -/
def parts (whole fraction : Text) : Nat × Int :=
  let (n, restOfWhole) := appendDigits 0 whole
  let (n, restOfFraction) := appendDigits n fraction
  (n, restOfWhole.length + restOfFraction.length - fraction.length)

/-- Whether the product of a number and a power of ten is beyond all doubles. -/
def exceeds (n : Nat) (exponent : Int) : Bool :=
  if n = 0 ∨ exponent < 0 then false
  else if 308 < exponent then true
  else decide (overflow ≤ nearest n * nearest (Nat.pow 10 exponent.toNat))

end SourceText.Json.Double
