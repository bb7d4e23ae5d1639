import SourceText.Json.Quote
import SourceText.Json.Skip
import SourceText.Location

/-!
# Locations as JSON

A location is written as an object with the keys `source`, `line` and `column`, in this order. It is
read from such an object with its keys in any order and other keys among them, and from an array of
the three values.
-/

namespace SourceText.Location

open Json

/-- The location as an object. -/
def toJson (l : Location) : Text :=
  "\x7b\"source\":".toList ++ quote l.source ++ ",\"line\":".toList ++ Text.ofNat l.line ++
    ",\"column\":".toList ++ Text.ofNat l.column ++ ['\x7d']

/-- What is wrong with a value that could be read to its end or not, where none of its kind can
stand. -/
def failureOf {α : Type} : Except Failure α → Failure
  | .ok _ => .unsuitable
  | .error e => e

/-- What is wrong with a value that is not of the kind asked for. Words, strings and numbers have to
be well formed, and are then unsuitable; so is anything that opens like an array or object. -/
def failureAt (text : Text) : Failure :=
  match text with
  | [] => .truncated
  | c :: rest =>
    if c = 'n' then failureOf (readWord ['u', 'l', 'l'] rest)
    else if c = 't' then failureOf (readWord ['r', 'u', 'e'] rest)
    else if c = 'f' then failureOf (readWord ['a', 'l', 's', 'e'] rest)
    else if c = '"' then failureOf (readString rest)
    else if c = '[' ∨ c = '\x7b' then .unsuitable
    else if c = '-' ∨ c.isDigit then
      match readNumber .truncated (c :: rest) with
      | .error e => e
      | .ok (number, _) => if number.isBeyondDouble then .malformed else .unsuitable
    else .malformed

/-- Reads the name of a source. -/
def readSource (text : Text) : Except Failure (Text × Text) :=
  match skipBlanks text with
  | '"' :: rest => readString rest
  | text => .error (failureAt text)

/-- Reads a line or a column. -/
def readCount (text : Text) : Except Failure (Nat × Text) :=
  let text := skipBlanks text
  match readNumber .truncated text with
  | .ok (number, rest) =>
    match number.count? maxCount with
    | some n => .ok (n, rest)
    | none => .error (failureAt text)
  | .error _ => .error (failureAt text)

/-- Reads on to the next value of an array, which has to be there. -/
def readComma (text : Text) : Except Failure Text :=
  match skipBlanks text with
  | [] => .error .truncated
  | c :: rest =>
    if c = ']' then .error .unsuitable
    else if c = ',' then
      match skipBlanks rest with
      | [] => .error .truncated
      | d :: rest => if d = ']' then .error .malformed else .ok (d :: rest)
    else .error .malformed

/-- Reads the three values of an array after its bracket, up to and with the closing one. -/
def readArray (text : Text) : Except Failure (Location × Text) := do
  match skipBlanks text with
  | [] => throw .truncated
  | c :: rest =>
    if c = ']' then throw .unsuitable
    let (source, rest) ← readSource (c :: rest)
    let (line, rest) ← readCount (← readComma rest)
    let (column, rest) ← readCount (← readComma rest)
    match skipBlanks rest with
    | [] => throw .truncated
    | c :: rest => if c = ']' then return (⟨source, line, column⟩, rest) else throw .malformed

/-- The values of an object read so far. -/
structure Partial where
  source : Option Text := none
  line : Option Nat := none
  column : Option Nat := none
  deriving DecidableEq, Repr

/-- The location of an object that has been read to its end. -/
def Partial.complete (p : Partial) : Except Failure Location :=
  match p.source, p.line, p.column with
  | some source, some line, some column => .ok ⟨source, line, column⟩
  | _, _, _ => .error .unsuitable

/-- Reads the colon after a key. -/
def readColon (text : Text) : Except Failure Text :=
  match skipBlanks text with
  | [] => .error .truncated
  | ':' :: rest => .ok rest
  | _ => .error .malformed

/-- Reads the value of a key. A key may come once only, which is seen before its value is. -/
def readField (p : Partial) (key text : Text) : Except Failure (Partial × Text) := do
  if key = "source".toList then
    if p.source.isSome then throw .unsuitable
    let (source, rest) ← readSource (← readColon text)
    return ({ p with source := some source }, rest)
  else if key = "line".toList then
    if p.line.isSome then throw .unsuitable
    let (line, rest) ← readCount (← readColon text)
    return ({ p with line := some line }, rest)
  else if key = "column".toList then
    if p.column.isSome then throw .unsuitable
    let (column, rest) ← readCount (← readColon text)
    return ({ p with column := some column }, rest)
  else
    return (p, ← skipValue (← readColon text))

/-- Reads the items of an object up to and with the closing brace. Every step takes at least one
character, so the length of the text bounds their number. -/
def readItems : Nat → Bool → Partial → Text → Except Failure (Location × Text)
  | n, isFirst, p, text =>
    match n, skipBlanks text with
    | _, [] => .error .truncated
    | 0, _ :: _ => .error .malformed
    | n + 1, c :: rest => do
      if c = '\x7d' then return (← p.complete, rest)
      if ¬ isFirst ∧ c ≠ ',' then throw .malformed
      match skipBlanks (if isFirst then c :: rest else rest) with
      | [] => throw .truncated
      | '"' :: rest =>
        let (key, rest) ← readString rest
        let (p, rest) ← readField p key rest
        readItems n false p rest
      | _ => throw .malformed

/-- Reads a location, after which nothing but blanks may follow. -/
def ofJson (text : Text) : Except Failure Location := do
  let (location, rest) ←
    match skipBlanks text with
    | '[' :: rest => readArray rest
    | '\x7b' :: rest => readItems (rest.length + 1) true {} rest
    | text => throw (failureAt text)
  if (skipBlanks rest).isEmpty then return location else throw .malformed

end SourceText.Location
