import SourceText.Decimal
import SourceText.Matcher
import SourceText.ParseError
import SourceText.Parser.Token
import SourceText.Segment.Character

/-!
# Parsers

A parser is a place in a segment that moves forward as its text is read. Each primitive either takes
some text and moves past it, or fails with an error at the place where it stands and does not move.
The message of an error is an action that sees the parser, and it is run when a primitive fails and
at no other time.
-/

namespace SourceText

/-- A place in a segment that is being read. -/
structure Parser where
  /-- What is being read. -/
  segment : Segment
  /-- The offset of the place in the segment. -/
  index : Nat
  deriving DecidableEq, Repr

namespace Parser

/-- The parser at the start of a segment. -/
def ofSegment (segment : Segment) : Parser := ⟨segment, 0⟩

/-- Whether nothing is left to read. -/
def atEnd (p : Parser) : Bool := decide (p.segment.length ≤ p.index)

/-- The next character. -/
def current? (p : Parser) : Option Char := (p.segment.charAt p.index).toOption

/-- The text that is left to read. -/
def remaining (p : Parser) : Text := (Text.drop? p.segment.text p.index).getD []

/-- Moves to an offset, forward or backward. -/
def moveTo (p : Parser) (index : Nat) : Except IndexError Parser :=
  if p.segment.length < index then .error (.outOfBounds index p.segment.length)
  else if ¬ Text.isBoundary p.segment.text index then .error (.notCharBoundary index)
  else .ok { p with index := index }

/-- Moves forward by a number of bytes. -/
def advance (p : Parser) (amount : Nat) : Except IndexError Parser :=
  p.moveTo (saturatingAdd p.index amount)

/-- Moves forward to the next white space, or to the end if there is none. -/
def skipToBlank (p : Parser) : Parser :=
  { p with index := p.index + Text.byteLength (p.remaining.takeWhile (!Blank.isBlank ·)) }

/-- What an error at this place is about: the next character or, at the end, the empty segment after
the last. -/
def here (p : Parser) : Segment :=
  match p.segment.charSegmentAt p.index with
  | .ok s => s
  | .error _ => p.segment.tail

/-- Takes all that is left. -/
def rest (p : Parser) : Segment × Parser :=
  let rest :=
    match p.segment.substringFrom p.index with
    | .ok s => s
    | .error _ => p.segment.tail
  (rest, { p with index := p.segment.length })

/-- Takes the text that a pattern matches here. The pattern sees nothing of the text before, and its
leftmost match has to start here. -/
def take? (p : Parser) (pattern : Pattern) : Option (Segment × Parser) :=
  match (p.segment.matcher pattern).confine p.index p.segment.length with
  | .error _ => none
  | .ok m =>
    match m.lookingAt with
    | (true, m) => m.group?.map fun token => (token, { p with index := p.index + token.length })
    | (false, _) => none

section Messages

variable {m : Type → Type} [Monad m] {α : Type}

/-- What a primitive answers: a value or an error, and the parser afterwards. -/
abbrev Answer (α : Type) := Except ParseError α × Parser

/-- The error with a message at this place. -/
def errorHere (p : Parser) (message : Parser → m Text) : m ParseError := do
  return { message := ← message p, segment := p.here }

/-- Fails at this place. -/
def fail (p : Parser) (message : Parser → m Text) : m (Answer α) := do
  return (.error (← p.errorHere message), p)

/-- Takes a certain character. -/
def literal (p : Parser) (c : Char) (message : Parser → m Text) : m (Answer Unit) :=
  if p.current? = some c then return (.ok (), { p with index := p.index + c.utf8Size })
  else p.fail message

/-- Takes any character. -/
def anyChar (p : Parser) (message : Parser → m Text) : m (Answer Char) :=
  match p.current? with
  | some c => return (.ok c, { p with index := p.index + c.utf8Size })
  | none => p.fail message

/-- Takes the text that a pattern matches here. -/
def token (p : Parser) (pattern : Pattern) (message : Parser → m Text) : m (Answer Segment) :=
  match p.take? pattern with
  | some (token, p) => return (.ok token, p)
  | none => p.fail message

/-- Takes a run of ASCII blanks. -/
def blanks (p : Parser) (message : Parser → m Text) : m (Answer Segment) :=
  p.token Token.blanks message

/-- Takes a run of characters other than ASCII blanks. -/
def word (p : Parser) (message : Parser → m Text) : m (Answer Segment) :=
  p.token Token.word message

/-- Takes a decimal numeral. One that writes no number that can be held is an error about the whole
numeral, and the parser stays before it. -/
def decimal (p : Parser) (message : Parser → m Text) : m (Answer Decimal) :=
  match p.take? Token.numeral with
  | none => p.fail message
  | some (token, p') =>
    match Decimal.ofNumeral (.ofText token.text) with
    | .ok d => return (.ok d, p')
    | .error e => do
      let error : ParseError :=
        { message := ← message p, segment := token, cause := some e.message }
      return (.error error, p)

/-- The message for a character that is not there. -/
def expected (c : Char) (_ : Parser) : m Text := return "expected '".toList ++ [c, '\'']

/-- The message for the end of the text where a character has to come. -/
def unexpectedEnd (_ : Parser) : m Text := return "unexpected end of input".toList

/-- The message for blanks that are not there. -/
def expectedBlanks (_ : Parser) : m Text := return "expected whitespace".toList

/-- The message for a word that is not there. -/
def expectedWord (_ : Parser) : m Text := return "expected non-whitespace".toList

/-- The message for a numeral that is not there or cannot be held. -/
def invalidNumber (_ : Parser) : m Text := return "invalid number".toList

/-- The message that something is missing, at the end of the text, or invalid, anywhere else. -/
def missingOrInvalid (what : Text) (p : Parser) : m Text :=
  return (if p.atEnd then "missing ".toList else "invalid ".toList) ++ what

end Messages

end Parser

end SourceText
