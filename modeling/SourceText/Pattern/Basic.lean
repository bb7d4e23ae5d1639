import SourceText.Pattern.Reader
import SourceText.Pattern.Run

/-!
# Patterns and their matches

A `Pattern` is a text that has been read as one. `findFrom` gives the first match that starts at or
after an offset: the leftmost, and of those that start there the one the pattern prefers.
`allMatches` gives all matches one after the other. After a match that covers no character the
search goes on one character later, so that the same match is not found again; after any other it
goes on at the end of the match, where an empty match may follow.
-/

namespace SourceText

/-- A text that has been read as a pattern. -/
structure Pattern where
  /-- The text. -/
  source : Text
  /-- What it was read as. -/
  node : Pattern.Node
  deriving DecidableEq, Repr

namespace Pattern.Match

/-- What a group matched when it last took part. Group `0` is the whole match. -/
def group? (m : Match) (index : Nat) : Option Span :=
  if index = 0 then some m.span else m.groups.lookup index

/-- The match in a text that has `base` more bytes in front. -/
def shift (m : Match) (base : Nat) : Match :=
  ⟨m.span.shift base, m.groups.map fun g => (g.1, g.2.shift base)⟩

end Pattern.Match

namespace Pattern

/-- Reads a text as a pattern. -/
def compile (flags : Flags) (source : Text) : Except SyntaxError Pattern :=
  (Reader.read flags source).map (⟨source, ·⟩)

/-- What a search for the pattern runs. -/
def code (p : Pattern) : Code := (p.node.code.run 0).1

/-- How many groups the pattern has, the whole match not counted. -/
def groupCount (p : Pattern) : Nat := p.node.groupCount

/-- The first match in a text that starts at or after an offset. Assertions see the text before the
offset. -/
def findFrom (p : Pattern) (text : Text) (offset : Nat) : Option Match :=
  match Text.drop? text offset with
  | some rest => scan p.code [] none (Text.charBefore? text offset) offset rest
  | none => none

/-- Where the search goes on after a match that was found in `text`, or nothing if that is past
`limit`. -/
def nextSearchStart (text : Text) (found : Span) (limit : Nat) : Option Nat :=
  if found.isEmpty then
    ((Text.charAt? text found.stop).map (found.stop + ·.utf8Size)).filter (· ≤ limit)
  else some found.stop

/-- The matches that searches from an offset on find, at most `n` of them. -/
def matchesFrom (p : Pattern) (text : Text) : Nat → Option Nat → List Span
  | n + 1, some offset =>
    match p.findFrom text offset with
    | some m => m.span :: matchesFrom p text n (nextSearchStart text m.span (Text.byteLength text))
    | none => []
  | _, _ => []

/-- All matches in a text, one after the other. Each search starts at a later character than the one
before, or at the end of the text, so there is at most one match more than there are characters. -/
def allMatches (p : Pattern) (text : Text) : List Span :=
  p.matchesFrom text (text.length + 1) (some 0)

/-- The text of the pattern that matches what `p` matches when it covers a whole text. -/
def wholeSource (p : Pattern) : Text := "\\A(?:".toList ++ p.source ++ ")\\z".toList

end Pattern

end SourceText
