import SourceText.Text.Basic

/-!
# Positions

A `Position` is a line and a column, both counted from zero, the column in characters. Walking past
a character goes one column on, and past the end of a line break to the start of the next line; the
two characters of a carriage return and line feed share one break, so between them the walk is
still on the old line. `Position.advance` walks a text, `Tracker` walks one in steps, and
`EndPosition.of` gives the place of a text's last character.

The line and the column of a `Position` are numbers without a bound. A machine has a greatest count,
and comes to the same positions as long as it can count their lines and columns, which for a whole
document is `Document.Fits`; where it cannot, it stops, or goes on with a number that is wrapped
(`Machine.count`).
-/

namespace SourceText

/-- A line and a column, both counted from zero. -/
structure Position where
  /-- How many lines come before. -/
  line : Nat
  /-- How many characters of the line come before. -/
  col : Nat
  deriving DecidableEq, Repr, Inhabited

namespace Position

/-- The position after the character `c`, where `next?` is the character that follows it. There is
always a next line and a next column here; for a machine that counts in 64 bits there is one up to
the greatest count, so that a document has the positions that it has here if `Document.Fits`. -/
def after (p : Position) (c : Char) (next? : Option Char) : Position :=
  if c = '\n' ∨ (c = '\r' ∧ next? ≠ some '\n') then ⟨p.line + 1, 0⟩ else ⟨p.line, p.col + 1⟩

/-- The position after a text, where `next?` is the character that follows it. -/
def advance (p : Position) (text : Text) (next? : Option Char) : Position :=
  match text with
  | [] => p
  | [c] => p.after c next?
  | c :: d :: rest => advance (p.after c (some d)) (d :: rest) next?

/-- The position of the last character of a text that starts at `p`. -/
def last? (p : Position) : Text → Option Position
  | [] => none
  | [_] => some p
  | c :: d :: rest => last? (p.after c (some d)) (d :: rest)

end Position

/-- The greatest column that a signed column holds. -/
def maxSignedCol : Nat := Nat.pow 2 63 - 1

/-- A column as a signed number; columns beyond the greatest count as it. -/
def signedCol (col : Nat) : Int := min col maxSignedCol

/-- Where a text ends: the line and the column of its last character. An empty text ends one column
before its start, which may be column `-1`. -/
structure EndPosition where
  /-- The line of the last character. -/
  line : Nat
  /-- The column of the last character. -/
  col : Int
  deriving DecidableEq, Repr, Inhabited

/-- The end of a text that starts at `p`. The column is one less than that of the place after the
last character, so it is less than the greatest signed column. -/
def EndPosition.of (p : Position) (text : Text) : EndPosition :=
  match p.last? text with
  | some q => ⟨q.line, signedCol (q.col + 1) - 1⟩
  | none => ⟨p.line, signedCol p.col - 1⟩

/-- A walk through a text: what is still ahead, and the offset and the position reached. -/
structure Tracker where
  /-- The text still ahead. -/
  rest : Text
  /-- The offset reached. -/
  offset : Nat
  /-- The position reached. -/
  position : Position
  deriving DecidableEq, Repr

namespace Tracker

/-- The walk that stands at the start of a text, at position `p`. -/
def start (text : Text) (p : Position) : Tracker := ⟨text, 0, p⟩

/-- Walks on to the first boundary at or after offset `target`, or to the end of the text. -/
def walk (target : Nat) : Text → Nat → Position → Tracker
  | [], offset, p => ⟨[], offset, p⟩
  | c :: rest, offset, p =>
    if offset < target then walk target rest (offset + c.utf8Size) (p.after c rest.head?)
    else ⟨c :: rest, offset, p⟩

/-- The walk moved on to offset `target`; it stays where it is when it is already there or past. -/
def advanceTo (t : Tracker) (target : Nat) : Tracker := walk target t.rest t.offset t.position

end Tracker

end SourceText
