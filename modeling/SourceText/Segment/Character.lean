import SourceText.Segment.Basic

/-!
# Characters of a segment and around it

The characters at an offset, the one-character segments made from them, the neighbours that a
segment has in its document, and the segment without its blank edges.
-/

namespace SourceText.Segment

/-- The character that starts at offset `n`. -/
def charAt (s : Segment) (n : Nat) : Except IndexError Char :=
  if s.length ≤ n then .error (.outOfBounds n s.length)
  else match Text.charAt? s.text n with
    | some c => .ok c
    | none => .error (.notCharBoundary n)

/-- The character that ends at offset `n`. -/
def charEndingAt (s : Segment) (n : Nat) : Except IndexError Char :=
  if n = 0 ∨ s.length < n then .error (.outOfBounds n s.length)
  else match Text.charBefore? s.text n with
    | some c => .ok c
    | none => .error (.notCharBoundary n)

/-- The code point that starts at offset `n`. -/
def codePointAt (s : Segment) (n : Nat) : Except IndexError Nat := (s.charAt n).map Char.toNat

/-- The code point that ends at offset `n`. -/
def codePointBefore (s : Segment) (n : Nat) : Except IndexError Nat :=
  (s.charEndingAt n).map Char.toNat

/-- How many characters lie between two offsets. -/
def codePointCount (s : Segment) (start stop : Nat) : Except IndexError Nat :=
  (s.checkRange start stop).map fun _ => (Text.slice s.text start stop).length

/-- The one-character segment at offset `n`, or the empty segment after the last character when `n`
is the length: the place where something that is missing would go. -/
def charSegmentAt (s : Segment) (n : Nat) : Except IndexError Segment :=
  if n = s.length then .ok s.tail
  else (s.charAt n).map fun c => s.derive n (n + c.utf8Size)

/-- The document's character just before the segment, or the empty segment at its start when there
is none. -/
def charBefore (s : Segment) : Segment :=
  if s.isRoot ∨ s.startOffset = 0 then s.derive 0 0
  else match (Text.slice s.root.text 0 s.startOffset).getLast? with
    | some c => s.root.derive (s.startOffset - c.utf8Size) s.startOffset
    | none => s.derive 0 0

/-- The document's character just after the segment, or the empty segment at its end when there is
none. -/
def charAfter (s : Segment) : Segment :=
  if s.isRoot ∨ Text.byteLength s.document.text ≤ s.stopOffset then s.tail
  else match s.root.charSegmentAt s.stopOffset with
    | .ok c => c
    | .error _ => s.tail

/-- Whether `c` is stripped from the edges: a space or a character below it. -/
def isTrimmed (c : Char) : Bool := decide (c.toNat ≤ 0x20)

/-- The segment without the blanks at its edges. One that has none is left as it is, so a root
stays a root. -/
def trim (s : Segment) : Segment :=
  let start := Text.byteLength (s.text.takeWhile isTrimmed)
  let stop := max start (s.length - Text.byteLength (s.text.reverse.takeWhile isTrimmed))
  if start = 0 ∧ stop = s.length then s else s.derive start stop

/-- Whether the segment begins with `part`. -/
def startsWith (s : Segment) (part : Text) : Bool := part.isPrefixOf s.text

/-- Whether the segment finishes with `part`. -/
def endsWith (s : Segment) (part : Text) : Bool := part.isSuffixOf s.text

/-- Whether `part` occurs in the segment. -/
def contains (s : Segment) (part : Text) : Bool := Text.contains s.text part

end SourceText.Segment
