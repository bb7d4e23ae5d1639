import SourceText.Text.Basic
import SourceText.Text.Blank
import SourceText.Text.Letter

/-!
# Sets of characters

A set is kept as the ranges of its code points, in ascending order and with a gap between any two,
so that there is one list of ranges for each set. `mem` says which characters belong. The operations
are those of bracketed classes, and the closing under case that a pattern without regard to case
asks for.
-/

namespace SourceText.Pattern

/-- A set of characters. -/
structure CharSet where
  /-- The ranges of its code points, ascending and apart. -/
  ranges : List CodeRange
  deriving DecidableEq, Repr

namespace CharSet

/-- The set that holds `c` alone. -/
def single (c : Char) : CharSet := ⟨[⟨c.toNat, c.toNat⟩]⟩

/-- The set without characters. -/
def empty : CharSet := ⟨[]⟩

/-- The set of all characters. -/
def full : CharSet := ⟨[⟨0, 0x10FFFF⟩]⟩

/-- The code points of characters go no further. -/
theorem toNat_le (c : Char) : c.toNat ≤ 0x10FFFF := by
  have h := c.valid
  unfold UInt32.isValidChar Nat.isValidChar at h
  change c.val.toNat ≤ _
  omega

/-- Whether ascending ranges hold a code point. -/
def holds : List CodeRange → Nat → Bool
  | [], _ => false
  | r :: rest, n => decide (r.first ≤ n) && (decide (n ≤ r.last) || holds rest n)

/-- Whether `c` belongs to the set. -/
def mem (s : CharSet) (c : Char) : Bool := holds s.ranges c.toNat

/-- Ascending ranges with one more range; those that it touches become one with it. -/
def addRange (r : CodeRange) : List CodeRange → List CodeRange
  | [] => [r]
  | s :: rest =>
    if r.last + 1 < s.first then r :: s :: rest
    else if s.last + 1 < r.first then s :: addRange r rest
    else addRange ⟨min r.first s.first, max r.last s.last⟩ rest

/-- The set of the code points in any of some ranges. -/
def ofRanges (table : List CodeRange) : CharSet := ⟨table.foldr addRange []⟩

/-- The set of some characters. -/
def ofChars (chars : List Char) : CharSet := ofRanges (chars.map fun c => ⟨c.toNat, c.toNat⟩)

/-- The word characters. -/
def word : CharSet :=
  ofRanges ([⟨0x30, 0x39⟩, ⟨0x41, 0x5A⟩, ⟨0x5F, 0x5F⟩, ⟨0x61, 0x7A⟩] ++ Letter.alphabeticTable ++
    Letter.digitTable ++ Letter.joiningTable)

/-- The decimal digits of all scripts. -/
def digit : CharSet := ofRanges (⟨0x30, 0x39⟩ :: Letter.digitTable)

/-- White space. -/
def blank : CharSet := ofRanges Blank.table

/-- The code points from `next` on that ascending ranges leave out. -/
def gaps (next : Nat) : List CodeRange → List CodeRange
  | [] => if next ≤ 0x10FFFF then [⟨next, 0x10FFFF⟩] else []
  | r :: rest =>
    if next < r.first then ⟨next, r.first - 1⟩ :: gaps (r.last + 1) rest
    else gaps (r.last + 1) rest

/-- The characters outside a set. -/
def compl (a : CharSet) : CharSet := ⟨gaps 0 a.ranges⟩

/-- The characters in at least one of two sets. -/
def union (a b : CharSet) : CharSet := ⟨a.ranges.foldr addRange b.ranges⟩

/-- The characters in both of two sets. -/
def inter (a b : CharSet) : CharSet := (a.compl.union b.compl).compl

/-- The characters of one set that are not in another. -/
def diff (a b : CharSet) : CharSet := a.inter b.compl

/-- The characters that are in one of two sets and not in the other. -/
def symmDiff (a b : CharSet) : CharSet := (a.diff b).union (b.diff a)

/-- The set of all characters but the line feed. -/
def notLineFeed : CharSet := (single '\n').compl

/-- The code points whose characters differ from that of `n` only in case: the other letter of an
ASCII or Latin-1 pair, and the signs beyond Latin-1 that count as further forms of such a letter,
such as the Kelvin sign for `k`. The letter itself may be among them. -/
def caseVariants (n : Nat) : List Nat :=
  if n = 0x4B ∨ n = 0x6B then [0x4B, 0x6B, 0x212A]
  else if n = 0x53 ∨ n = 0x73 then [0x53, 0x73, 0x17F]
  else if 0x41 ≤ n ∧ n ≤ 0x5A then [n + 0x20]
  else if 0x61 ≤ n ∧ n ≤ 0x7A then [n - 0x20]
  else if n = 0xC5 ∨ n = 0xE5 then [0xC5, 0xE5, 0x212B]
  else if 0xC0 ≤ n ∧ n ≤ 0xDE ∧ n ≠ 0xD7 then [n + 0x20]
  else if 0xE0 ≤ n ∧ n ≤ 0xFE ∧ n ≠ 0xF7 then [n - 0x20]
  else if n = 0xFF then [0x178]
  else if n = 0x178 then [0xFF]
  else if n = 0xDF then [0x1E9E]
  else if n = 0x1E9E then [0xDF]
  else if n = 0x212A then [0x4B, 0x6B]
  else if n = 0x17F then [0x53, 0x73]
  else if n = 0x212B then [0xC5, 0xE5]
  else if n = 0xB5 ∨ n = 0x39C ∨ n = 0x3BC then [0xB5, 0x39C, 0x3BC]
  else []

/-- The code points that have case variants, and the rest of ASCII and Latin-1. -/
def casedPoints : List Nat :=
  List.range 0x100 ++ [0x178, 0x17F, 0x39C, 0x3BC, 0x1E9E, 0x212A, 0x212B]

/-- The characters of the set, and those that differ from one of them only in case. -/
def caseClosed (a : CharSet) : CharSet :=
  let variants := casedPoints.filter fun n => (caseVariants n).any (holds a.ranges)
  (ofRanges (variants.map fun n => ⟨n, n⟩)).union a

/-- The set as it is, or closed under case. -/
def foldedIf (fold : Bool) (a : CharSet) : CharSet := if fold then a.caseClosed else a

/-- The set as it is, or the characters outside it. -/
def negatedIf (negated : Bool) (a : CharSet) : CharSet := if negated then a.compl else a

/-- The ASCII classes by name. -/
def asciiTable : List (String × List CodeRange) := [
  ("alnum", [⟨0x30, 0x39⟩, ⟨0x41, 0x5A⟩, ⟨0x61, 0x7A⟩]),
  ("alpha", [⟨0x41, 0x5A⟩, ⟨0x61, 0x7A⟩]),
  ("ascii", [⟨0x00, 0x7F⟩]),
  ("blank", [⟨0x09, 0x09⟩, ⟨0x20, 0x20⟩]),
  ("cntrl", [⟨0x00, 0x1F⟩, ⟨0x7F, 0x7F⟩]),
  ("digit", [⟨0x30, 0x39⟩]),
  ("graph", [⟨0x21, 0x7E⟩]),
  ("lower", [⟨0x61, 0x7A⟩]),
  ("print", [⟨0x20, 0x7E⟩]),
  ("punct", [⟨0x21, 0x2F⟩, ⟨0x3A, 0x40⟩, ⟨0x5B, 0x60⟩, ⟨0x7B, 0x7E⟩]),
  ("space", [⟨0x09, 0x0D⟩, ⟨0x20, 0x20⟩]),
  ("upper", [⟨0x41, 0x5A⟩]),
  ("word", [⟨0x30, 0x39⟩, ⟨0x41, 0x5A⟩, ⟨0x5F, 0x5F⟩, ⟨0x61, 0x7A⟩]),
  ("xdigit", [⟨0x30, 0x39⟩, ⟨0x41, 0x46⟩, ⟨0x61, 0x66⟩])]

/-- The ASCII class of a name, as in `[:alpha:]`. -/
def ofAsciiName? (name : Text) : Option CharSet :=
  (asciiTable.lookup (String.ofList name)).map CharSet.mk

end CharSet

end SourceText.Pattern
