import SourceText.Pattern.Basic
import SourceText.Segment.Basic
import SourceText.Text.LineBreak

/-!
# Splitting

A segment is split at separators: the matches of a pattern, the occurrences of a character, or the
line breaks. `pieces` says which spans lie between the separators that a limit allows, and
`splitAround` derives a segment for each, finding their positions in one walk.
-/

namespace SourceText

/-- How many pieces a split may make, and what becomes of empty pieces at the end. -/
inductive SplitLimit where
  /-- As many as there are, empty ones included. -/
  | keepTrailing
  /-- As many as there are, without the empty ones at the end. -/
  | dropTrailing
  /-- At most `n` pieces, of which the last holds all that was not split. -/
  | atMost (n : Nat)
  deriving DecidableEq, Repr

/-- The limit that a number stands for: a positive one is the greatest number of pieces, zero drops
empty pieces at the end, and a negative one keeps them. -/
def SplitLimit.ofInt : Int → SplitLimit
  | .ofNat 0 => dropTrailing
  | .ofNat (n + 1) => atMost (n + 1)
  | .negSucc _ => keepTrailing

namespace Split

/-- The separators that a split uses. An empty one at the very start is never used, and to make at
most `n` pieces takes less than `n` separators. -/
def used (limit : SplitLimit) (separators : List Span) : List Span :=
  let separators := separators.filter (· ≠ ⟨0, 0⟩)
  match limit with
  | .atMost n => separators.take (n - 1)
  | .keepTrailing | .dropTrailing => separators

/-- The spans before, between and after separators in a text, from an offset to the end. -/
def between (start stop : Nat) : List Span → List Span
  | [] => [⟨start, stop⟩]
  | s :: rest => ⟨start, s.start⟩ :: between s.stop stop rest

/-- The list without the empty spans at its end. -/
def dropTrailingEmpty : List Span → List Span
  | [] => []
  | s :: rest =>
    match dropTrailingEmpty rest with
    | [] => if s.isEmpty then [] else [s]
    | t :: rest => s :: t :: rest

/-- The pieces of a text of a certain length, cut around the separators in use. -/
def pieces (length : Nat) (limit : SplitLimit) (separators : List Span) : List Span :=
  let pieces := between 0 length separators
  match limit with
  | .dropTrailing => dropTrailingEmpty pieces
  | .keepTrailing | .atMost _ => pieces

/-- The segments of spans in order, each found by walking on from the one before. -/
def locate (s : Segment) : Tracker → List Span → List Segment
  | _, [] => []
  | t, p :: rest =>
    let t := t.advanceTo p.start
    s.deriveAt p.start p.stop t.position :: locate s t rest

/-- The signs of ASCII that are neither letters nor digits. -/
def punctuation : List CodeRange := [⟨0x21, 0x2F⟩, ⟨0x3A, 0x40⟩, ⟨0x5B, 0x60⟩, ⟨0x7B, 0x7E⟩]

/-- The character that a separator's text stands for, if the text reads as a single character and
not as a pattern with a meaning of its own: one that is no sign with a meaning, or such a sign or
any other one behind a backslash, save the two that stand for the edges of a word there. -/
def literal? : Text → Option Char
  | [c] => if c ∈ ".$|()[\x7b^?*+\\".toList then none else some c
  | ['\\', c] =>
    if CodeRange.anyContains punctuation c ∧ c ≠ '<' ∧ c ≠ '>' then some c else none
  | _ => none

/-- The occurrences of a character in a text whose first byte has a certain offset. -/
def occurrences (c : Char) (offset : Nat) : Text → List Span
  | [] => []
  | a :: rest =>
    let next := offset + a.utf8Size
    if a = c then ⟨offset, next⟩ :: occurrences c next rest else occurrences c next rest

end Split

namespace Segment

/-- Splits around separators, which are given in order. A segment in which none is used stays
whole. -/
def splitAround (s : Segment) (separators : List Span) (limit : SplitLimit) : List Segment :=
  match Split.used limit separators with
  | [] => [s]
  | separator :: rest =>
    Split.locate s (.start s.text s.start) (Split.pieces s.length limit (separator :: rest))

/-- Splits around the matches of a pattern. -/
def split (s : Segment) (p : Pattern) (limit : SplitLimit) : List Segment :=
  s.splitAround (p.allMatches s.text) limit

/-- Splits around the matches of a pattern given as a text. A single character that means itself is
looked for directly. -/
def splitText (s : Segment) (separator : Text) (limit : SplitLimit) :
    Except Pattern.SyntaxError (List Segment) :=
  match Split.literal? separator with
  | some c => .ok (s.splitAround (Split.occurrences c 0 s.text) limit)
  | none => (Pattern.compile {} separator).map (s.split · limit)

/-- The lines, without the breaks between them. A break at the end is followed by an empty line. -/
def lines (s : Segment) : List Segment := s.splitAround (LineBreak.spans s.text) .keepTrailing

end Segment

end SourceText
