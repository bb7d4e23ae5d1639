import SourceText.Text.Basic

/-!
# Digits

Reading the digits of numbers in bases up to sixteen.
-/

namespace SourceText.Digits

/-- The value of a digit; the letters, in either case, count from ten. -/
def valueOf (c : Char) : Nat :=
  if c.isDigit then c.toNat - 0x30 else if c.isLower then c.toNat - 0x57 else c.toNat - 0x37

/-- The number that digits write in a base. -/
def value (base : Nat) (digits : Text) : Nat := digits.foldl (fun n c => n * base + valueOf c) 0

/-- Whether `c` is a hexadecimal digit. -/
def isHex (c : Char) : Bool :=
  c.isDigit || decide ('a' ≤ c ∧ c ≤ 'f') || decide ('A' ≤ c ∧ c ≤ 'F')

end SourceText.Digits
