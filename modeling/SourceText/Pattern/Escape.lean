import SourceText.Pattern.Flags
import SourceText.Pattern.Node
import SourceText.Text.Digits

/-!
# Escapes

What a backslash makes of the characters after it, and the runs of signs that may have blanks and
comments between them when the pattern is an extended one.
-/

namespace SourceText.Pattern

/-- The text after the blanks and comments at its start. A comment runs to the end of its line. -/
def dropSpace (inComment : Bool) : Text → Text
  | [] => []
  | c :: rest =>
    if inComment then dropSpace (c != '\n') rest
    else if Blank.isBlank c then dropSpace false rest
    else if c = '#' then dropSpace true rest
    else c :: rest

/-- The text after what an extended pattern leaves out. -/
def skipSpace (extended : Bool) (text : Text) : Text :=
  if extended then dropSpace false text else text

/-- At most `limit` characters of a kind, and what follows them; an extended pattern may have blanks
and comments after each. -/
def readRun (extended : Bool) (kind : Char → Bool) (limit : Nat) (inComment : Bool) :
    Text → Text × Text
  | [] => ([], [])
  | c :: rest =>
    if inComment then readRun extended kind limit (c != '\n') rest
    else if limit ≠ 0 ∧ kind c then
      let (run, rest) := readRun extended kind (limit - 1) false rest
      (c :: run, rest)
    else if extended ∧ Blank.isBlank c then readRun extended kind limit false rest
    else if extended ∧ c = '#' then readRun extended kind limit true rest
    else ([], c :: rest)

/-- All characters of a kind at the start of a text, and what follows them. -/
def readAll (extended : Bool) (kind : Char → Bool) (text : Text) : Text × Text :=
  readRun extended kind text.length false text

/-- The character of a code point written in hexadecimal. -/
def charOfHex (digits : Text) : Except SyntaxError Char :=
  let n := Digits.value 16 digits
  if digits.isEmpty ∨ ¬ n.isValidChar then .error .badCodePoint else .ok (Char.ofNat n)

/-- How deeply parts nest that stand side by side. Two or more nest one deeper than the deepest of
them, and one alone no deeper than it does. -/
def nesting (depths : List Nat) : Nat :=
  depths.foldl max 0 + if 2 ≤ depths.length then 1 else 0

/-- One sign of a pattern. -/
inductive Atom where
  /-- A character that stands for itself. -/
  | char (c : Char)
  /-- A set of characters that has a letter. -/
  | set (s : CharSet)
  /-- An assertion that has a letter. -/
  | assertion (a : Assertion)
  deriving DecidableEq, Repr

/-- Whether a backslash takes from `c` the meaning it may have. Letters and digits have one only
with the backslash, and so have the signs of the two word edges. -/
def isEscapable (c : Char) : Bool :=
  decide (c.toNat < 0x80) && !c.isAlphanum && c != '<' && c != '>'

/-- A code point in hexadecimal: as many digits as `width` says, or any number between braces. -/
def readCodePoint (extended : Bool) (width : Nat) (text : Text) :
    Except SyntaxError (Char × Text) :=
  match skipSpace extended text with
  | [] => .error .unfinishedEscape
  | c :: rest =>
    if c = '\x7b' then
      match readAll extended Digits.isHex (skipSpace extended rest) with
      | (digits, e :: rest) =>
        if e = '\x7d' then (charOfHex digits).map (·, skipSpace extended rest)
        else .error .badCodePoint
      | (_, []) => .error .unfinishedEscape
    else
      match readRun extended Digits.isHex width false (c :: rest) with
      | (digits, rest) =>
        if digits.length = width then (charOfHex digits).map (·, rest) else .error .badCodePoint

/-- The names of the boundaries that are written between braces after `\b`. -/
def boundaryOfName? (name : Text) : Option Assertion :=
  [("start".toList, Assertion.wordStart), ("end".toList, .wordEnd),
    ("start-half".toList, .noWordBefore), ("end-half".toList, .noWordAfter)].lookup name

/-- What follows `\b`. A brace that a letter or a hyphen follows begins the name of a boundary; any
other is left for a count. -/
def readBoundary (extended : Bool) (text : Text) : Except SyntaxError (Assertion × Text) :=
  let isNameSign := fun c : Char => c.isAlpha || c == '-'
  match text with
  | [] => .ok (.wordBoundary, [])
  | b :: rest =>
    if b ≠ '\x7b' then .ok (.wordBoundary, b :: rest)
    else match skipSpace extended rest with
      | [] => .error .unknownBoundary
      | c :: inner =>
        if ¬ isNameSign c then .ok (.wordBoundary, b :: rest)
        else match readAll extended isNameSign (c :: inner) with
          | (name, e :: rest) =>
            match boundaryOfName? name with
            | some a => if e = '\x7d' then .ok (a, rest) else .error .unknownBoundary
            | none => .error .unknownBoundary
          | (_, []) => .error .unknownBoundary

/-- The meaning of a letter or an angle bracket after a backslash, when it needs no more than
itself. -/
def atomOfLetter? (c : Char) : Option Atom :=
  [('d', Atom.set .digit), ('D', .set (.compl .digit)), ('s', .set .blank),
    ('S', .set (.compl .blank)), ('w', .set .word), ('W', .set (.compl .word)),
    ('a', .char '\x07'), ('f', .char '\x0c'), ('t', .char '\t'), ('n', .char '\n'),
    ('r', .char '\r'), ('v', .char '\x0b'), ('A', .assertion .textStart),
    ('z', .assertion .textEnd), ('B', .assertion .notWordBoundary), ('<', .assertion .wordStart),
    ('>', .assertion .wordEnd)].lookup c

/-- Reads what follows a backslash. -/
def readEscape (extended : Bool) : Text → Except SyntaxError (Atom × Text)
  | [] => .error .unfinishedEscape
  | c :: rest =>
    if isEscapable c then .ok (.char c, rest)
    else if c.isDigit then .error .backReference
    else if c = 'x' then (readCodePoint extended 2 rest).map fun (c, rest) => (.char c, rest)
    else if c = 'u' then (readCodePoint extended 4 rest).map fun (c, rest) => (.char c, rest)
    else if c = 'U' then (readCodePoint extended 8 rest).map fun (c, rest) => (.char c, rest)
    else if c = 'p' ∨ c = 'P' then .error .unknownProperty
    else if c = 'b' then
      (readBoundary extended rest).map fun (a, rest) => (.assertion a, rest)
    else match atomOfLetter? c with
      | some a => .ok (a, rest)
      | none => .error .unknownEscape

end SourceText.Pattern
