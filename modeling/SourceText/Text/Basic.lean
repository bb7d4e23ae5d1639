/-!
# Text and byte offsets

A text is a list of characters, and a place in it is a byte offset into its UTF-8 encoding. An
offset is a boundary when no character straddles it, and only boundaries cut a text: `drop?` and
`take?` answer nothing elsewhere. A `Span` names the bytes between two offsets, and `slice?` is the
text that it covers.
-/

namespace SourceText

/-- The characters of a text, in order. -/
abbrev Text := List Char

/-- The bytes from offset `start` up to, and without, offset `stop`. -/
structure Span where
  /-- The offset of the first byte. -/
  start : Nat
  /-- The offset after the last byte. -/
  stop : Nat
  deriving DecidableEq, Repr, Inhabited

namespace Span

/-- A span that covers no byte. -/
def isEmpty (s : Span) : Bool := s.start == s.stop

/-- The same bytes, counted from a place `base` bytes earlier. -/
def shift (s : Span) (base : Nat) : Span := ⟨base + s.start, base + s.stop⟩

end Span

namespace Text

/-- The number of bytes in the UTF-8 encoding. -/
def byteLength : Text → Nat
  | [] => 0
  | c :: rest => c.utf8Size + byteLength rest

/-- What follows the first `n` bytes, or nothing when `n` is not a boundary of the text. -/
def drop? : Text → Nat → Option Text
  | text, 0 => some text
  | [], _ + 1 => none
  | c :: rest, n + 1 => if c.utf8Size ≤ n + 1 then drop? rest (n + 1 - c.utf8Size) else none

/-- The first `n` bytes, or nothing when `n` is not a boundary of the text. -/
def take? : Text → Nat → Option Text
  | _, 0 => some []
  | [], _ + 1 => none
  | c :: rest, n + 1 =>
    if c.utf8Size ≤ n + 1 then (take? rest (n + 1 - c.utf8Size)).map (c :: ·) else none

/-- Whether offset `n` is at an end of the text or between two of its characters. -/
def isBoundary (text : Text) (n : Nat) : Bool := (drop? text n).isSome

/-- The text between two boundaries in order, or nothing for any other two offsets. -/
def slice? (text : Text) (start stop : Nat) : Option Text :=
  if start ≤ stop then (drop? text start).bind (take? · (stop - start)) else none

/-- The text between two offsets, empty unless they are boundaries in order. -/
def slice (text : Text) (start stop : Nat) : Text := (slice? text start stop).getD []

/-- The character that starts at offset `n`. -/
def charAt? (text : Text) (n : Nat) : Option Char := (drop? text n).bind List.head?

/-- The character that ends at offset `n`. -/
def charBefore? (text : Text) (n : Nat) : Option Char := (take? text n).bind List.getLast?

/-- Whether `part` occurs in the text. -/
def contains (text part : Text) : Bool :=
  match text with
  | [] => part.isEmpty
  | c :: rest => part.isPrefixOf (c :: rest) || contains rest part

/-- The bytes of the UTF-8 encoding. -/
def utf8 (text : Text) : List UInt8 := text.flatMap String.utf8EncodeChar

/-- The decimal digits of a number. -/
def ofNat (n : Nat) : Text := Nat.toDigits 10 n

/-- The decimal digits of a number, after a minus sign if it is negative. -/
def ofInt : Int → Text
  | .ofNat n => ofNat n
  | .negSucc n => '-' :: ofNat (n + 1)

end Text

end SourceText
