import SourceText.IndexError
import SourceText.Position

/-!
# Segments

A `Document` is a text with the name of its source and the position of its first character. A
`Segment` is a part of a document that knows where it lies: its offsets in the document's text, the
position of its first character and that of its last. The root segment is the whole document; all
others are derived from a segment by giving offsets into it, and `derive` finds their positions by
walking the parent's text from the parent's own start.
-/

namespace SourceText

/-- A text, the name of its source, and the position of its first character. -/
structure Document where
  /-- The characters. -/
  text : Text
  /-- The name of the source, usually that of a file. -/
  source : Text
  /-- The position of the first character. -/
  start : Position
  deriving DecidableEq, Repr

/-- A part of a document, and where it starts and ends. -/
structure Segment where
  /-- The document that this is a part of. -/
  document : Document
  /-- Whether this is the document itself, rather than a part that was cut out of it. -/
  isRoot : Bool
  /-- The offset in the document of the first character. -/
  startOffset : Nat
  /-- The offset in the document after the last character. -/
  stopOffset : Nat
  /-- The position of the first character. -/
  start : Position
  /-- The position of the last character. -/
  stop : EndPosition
  deriving DecidableEq, Repr

namespace Segment

/-- The segment that is the whole of a document. -/
def ofDocument (document : Document) : Segment where
  document := document
  isRoot := true
  startOffset := 0
  stopOffset := Text.byteLength document.text
  start := document.start
  stop := .of document.start document.text

/-- The root segment of a new document. -/
def ofText (text source : Text) (start : Position) : Segment := ofDocument ⟨text, source, start⟩

/-- The characters of the segment. -/
def text (s : Segment) : Text := Text.slice s.document.text s.startOffset s.stopOffset

/-- The length in bytes. -/
def length (s : Segment) : Nat := s.stopOffset - s.startOffset

/-- Whether the segment has no characters. -/
def isEmpty (s : Segment) : Bool := s.startOffset == s.stopOffset

/-- The name of the document's source. -/
def source (s : Segment) : Text := s.document.source

/-- The offset in the document of a segment that was cut out of it. -/
def sourceOffset? (s : Segment) : Option Nat := if s.isRoot then none else some s.startOffset

/-- The root segment of the same document. -/
def root (s : Segment) : Segment := ofDocument s.document

/-- Two segments are alike when they read the same, come from sources of one name, and start and
end at the same positions. They may be parts of different documents. -/
def Alike (s t : Segment) : Prop :=
  s.text = t.text ∧ s.source = t.source ∧ s.start = t.start ∧ s.stop = t.stop

instance (s t : Segment) : Decidable (Alike s t) :=
  inferInstanceAs (Decidable (_ ∧ _ ∧ _ ∧ _))

/-- Accepts two offsets into the segment that are boundaries in order. -/
def checkRange (s : Segment) (start stop : Nat) : Except IndexError Unit :=
  if stop < start ∨ s.length < stop then .error (.invalidRange start stop s.length)
  else if ¬ Text.isBoundary s.text start then .error (.notCharBoundary start)
  else if ¬ Text.isBoundary s.text stop then .error (.notCharBoundary stop)
  else .ok ()

/-- The part between two boundaries, when the position of the first is known. -/
def deriveAt (s : Segment) (start stop : Nat) (p : Position) : Segment where
  document := s.document
  isRoot := false
  startOffset := s.startOffset + start
  stopOffset := s.startOffset + stop
  start := p
  stop := .of p (Text.slice s.text start stop)

/-- The position just past the last character, on the same line even if it is a line break. -/
def pastEnd (s : Segment) : Position := ⟨s.stop.line, (s.stop.col + 1).toNat⟩

/-- The position at offset `n`. The end of a segment that is not empty is just past its last
character; any other offset is reached by walking from the start. -/
def positionAt (s : Segment) (n : Nat) : Position :=
  if n = s.length ∧ ¬ s.isEmpty then s.pastEnd
  else ((Tracker.start s.text s.start).advanceTo n).position

/-- The part between two boundaries. -/
def derive (s : Segment) (start stop : Nat) : Segment := s.deriveAt start stop (s.positionAt start)

/-- The part from offset `start` up to offset `stop`. -/
def substring (s : Segment) (start stop : Nat) : Except IndexError Segment :=
  (s.checkRange start stop).map fun _ => s.derive start stop

/-- The part from offset `start` to the end. -/
def substringFrom (s : Segment) (start : Nat) : Except IndexError Segment :=
  s.substring start s.length

/-- The empty segment after the last character. -/
def tail (s : Segment) : Segment := s.derive s.length s.length

end Segment

end SourceText
