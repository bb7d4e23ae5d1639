import SourceText.Json.Double
import SourceText.Text.Digits

/-!
# The tokens of JSON

Blanks, words, strings and numbers, each read from the front of a text. A text can fail to be JSON
in two ways that are told apart, by what it holds and by ending too soon, and a well-formed value
can still be of the wrong kind for its place.
-/

namespace SourceText.Json

/-- Why a text is not the value that was asked for. -/
inductive Failure where
  /-- The text is not JSON. -/
  | malformed
  /-- The text ends before the value does. -/
  | truncated
  /-- A value is of the wrong kind, is missing, or is given twice. -/
  | unsuitable
  deriving DecidableEq, Repr

/-- The text after the blanks at its start. -/
def skipBlanks (text : Text) : Text :=
  text.dropWhile fun c => c == ' ' || c == '\n' || c == '\t' || c == '\r'

/-- Reads the rest of a word. -/
def readWord : Text → Text → Except Failure Text
  | [], text => .ok text
  | _ :: _, [] => .error .truncated
  | c :: word, a :: rest => if a = c then readWord word rest else .error .malformed

/-- Reads the four hexadecimal digits of a UTF-16 unit. Four bytes that are not are malformed; fewer
are truncated. -/
def readUnit (text : Text) : Except Failure (Nat × Text) :=
  if Text.byteLength text < 4 then .error .truncated
  else if (text.take 4).length = 4 ∧ (text.take 4).all Digits.isHex then
    .ok (Digits.value 16 (text.take 4), text.drop 4)
  else .error .malformed

/-- The character that a letter stands for after a backslash. -/
def charOfEscape? (c : Char) : Option Char :=
  [('"', '"'), ('\\', '\\'), ('/', '/'), ('b', '\x08'), ('f', '\x0c'), ('n', '\n'), ('r', '\r'),
    ('t', '\t')].lookup c

/-- Reads the second half of a character that takes two UTF-16 units. -/
def readSecondUnit (first : Nat) : Text → Except Failure (Char × Text)
  | '\\' :: 'u' :: rest =>
    match readUnit rest with
    | .error e => .error e
    | .ok (second, rest) =>
      if 0xDC00 ≤ second ∧ second ≤ 0xDFFF then
        .ok (Char.ofNat (0x10000 + (first - 0xD800) * 0x400 + (second - 0xDC00)), rest)
      else .error .malformed
  | [] | ['\\'] => .error .truncated
  | _ => .error .malformed

/-- Reads what follows a backslash in a string. -/
def readEscape : Text → Except Failure (Char × Text)
  | [] => .error .truncated
  | c :: rest =>
    if c = 'u' then
      match readUnit rest with
      | .error e => .error e
      | .ok (unit, rest) =>
        if 0xDC00 ≤ unit ∧ unit ≤ 0xDFFF then .error .malformed
        else if 0xD800 ≤ unit ∧ unit ≤ 0xDBFF then readSecondUnit unit rest
        else .ok (Char.ofNat unit, rest)
    else match charOfEscape? c with
      | some a => .ok (a, rest)
      | none => .error .malformed

/-- Passes over what follows a backslash in a string that is not kept. Its units need not be those
of a character. -/
def skipEscape : Text → Except Failure Text
  | [] => .error .truncated
  | c :: rest =>
    if c = 'u' then (readUnit rest).map Prod.snd
    else if (charOfEscape? c).isSome then .ok rest
    else .error .malformed

/-- Reads a string after its opening quote, each step at least one character, so that the length of
the text bounds their number. -/
def readChars : Nat → Text → Except Failure (Text × Text)
  | _, [] => .error .truncated
  | 0, _ :: _ => .error .truncated
  | n + 1, c :: rest =>
    if c = '"' then .ok ([], rest)
    else if c = '\\' then
      match readEscape rest with
      | .error e => .error e
      | .ok (a, rest) => (readChars n rest).map fun (text, rest) => (a :: text, rest)
    else if c.toNat < 0x20 then .error .malformed
    else (readChars n rest).map fun (text, rest) => (c :: text, rest)

/-- Reads a string after its opening quote. -/
def readString (text : Text) : Except Failure (Text × Text) := readChars text.length text

/-- Passes over a string after its opening quote, each step at least one character. -/
def skipChars : Nat → Text → Except Failure Text
  | _, [] => .error .truncated
  | 0, _ :: _ => .error .truncated
  | n + 1, c :: rest =>
    if c = '"' then .ok rest
    else if c = '\\' then
      match skipEscape rest with
      | .error e => .error e
      | .ok rest => skipChars n rest
    else if c.toNat < 0x20 then .error .malformed
    else skipChars n rest

/-- Passes over a string after its opening quote. -/
def skipString (text : Text) : Except Failure Text := skipChars text.length text

/-- A number as it is written. -/
structure Number where
  /-- Whether a minus sign stands in front. -/
  negative : Bool
  /-- The digits before the point. -/
  whole : Text
  /-- The digits after the point, if there is one. -/
  fraction : Option Text
  /-- The exponent, if there is one. -/
  exponent : Option Int
  deriving DecidableEq, Repr

/-- Reads a point and the digits after it, if a point comes next. -/
def readFraction (atEnd : Failure) : Text → Except Failure (Option Text × Text)
  | '.' :: rest =>
    match rest.takeWhile Char.isDigit, rest.dropWhile Char.isDigit with
    | [], [] => .error atEnd
    | [], _ :: _ => .error .malformed
    | digits, rest => .ok (some digits, rest)
  | text => .ok (none, text)

/-- Reads an exponent, if its letter comes next. -/
def readExponent (atEnd : Failure) (text : Text) : Except Failure (Option Int × Text) :=
  match text with
  | [] => .ok (none, [])
  | c :: rest =>
    if c = 'e' ∨ c = 'E' then
      let sign := rest.head?
      let rest := if sign = some '+' ∨ sign = some '-' then rest.drop 1 else rest
      match rest.takeWhile Char.isDigit, rest.dropWhile Char.isDigit with
      | [], [] => .error atEnd
      | [], _ :: _ => .error .malformed
      | digits, rest =>
        let value : Int := Digits.value 10 digits
        .ok (some (if sign = some '-' then -value else value), rest)
    else .ok (none, text)

/-- Reads the digits before the point. A zero in front of other digits is malformed. -/
def readWhole (atEnd : Failure) (text : Text) : Except Failure (Text × Text) :=
  match text.takeWhile Char.isDigit, text.dropWhile Char.isDigit with
  | [], [] => .error atEnd
  | [], _ :: _ => .error .malformed
  | '0' :: _ :: _, _ => .error .malformed
  | digits, rest => .ok (digits, rest)

/-- Reads a number; `atEnd` says what is wrong when the text ends where a digit has to come. -/
def readNumber (atEnd : Failure) (text : Text) : Except Failure (Number × Text) := do
  let negative := text.head? == some '-'
  let (whole, rest) ← readWhole atEnd (if negative then text.drop 1 else text)
  let (fraction, rest) ← readFraction atEnd rest
  let (exponent, rest) ← readExponent atEnd rest
  return (⟨negative, whole, fraction, exponent⟩, rest)

namespace Number

/-- The value of a number written as a count, which has no sign, point or exponent and is no greater
than a limit. -/
def count? (limit : Nat) (n : Number) : Option Nat :=
  let value := Digits.value 10 n.whole
  if n.negative ∨ n.fraction.isSome ∨ n.exponent.isSome ∨ limit < value then none
  else some value

/-- Whether the number is beyond the range of double-precision numbers. A written exponent of
`2 ^ 31` or more decides alone, whatever the digits are, unless they are zeros. -/
def isBeyondDouble (n : Number) : Bool :=
  let (digits, exponent) := Double.parts n.whole (n.fraction.getD [])
  let written := n.exponent.getD 0
  if written < Nat.pow 2 31 then Double.exceeds digits (exponent + written) else digits != 0

end Number

end SourceText.Json
