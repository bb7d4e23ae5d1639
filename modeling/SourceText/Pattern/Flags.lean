import SourceText.Text.Basic
import SourceText.Pattern.Error

/-!
# Flags

The options under which a pattern is read. A pattern starts with given flags and may change them,
for the rest of a group with a directive such as `(?i)`, or for one group with `(?i:…)`.
-/

namespace SourceText.Pattern

/-- The options under which a pattern is read. -/
structure Flags where
  /-- A letter matches whatever its case. -/
  ignoreCase : Bool := false
  /-- The line anchors match at every line, not at the edges of the text only. -/
  multiLine : Bool := false
  /-- The dot matches a line feed too. -/
  dotAll : Bool := false
  /-- Repetitions prefer few, and those marked with a question mark prefer many. -/
  swapGreed : Bool := false
  /-- Blanks are left out, and so is what follows a number sign on its line. -/
  extended : Bool := false
  deriving DecidableEq, Repr, Inhabited

namespace Flags

/-- The flags with the one of a letter switched on or off. -/
def set? (f : Flags) (letter : Char) (on : Bool) : Option Flags :=
  if letter = 'i' then some { f with ignoreCase := on }
  else if letter = 'm' then some { f with multiLine := on }
  else if letter = 's' then some { f with dotAll := on }
  else if letter = 'U' then some { f with swapGreed := on }
  else if letter = 'x' then some { f with extended := on }
  else none

/-- What ends a list of flags: a colon before the body of a group, or the parenthesis that closes a
directive. -/
inductive Ending where
  | body
  | directive
  deriving DecidableEq, Repr

/-- Reads the flags after `(?`. Those after a minus sign are switched off; `seen` are the signs read
so far, the last one first, none of which may come again. -/
def read (f : Flags) (negated : Bool) (seen : List Char) :
    Text → Except SyntaxError (Flags × Ending × Text)
  | [] => .error .unclosedGroup
  | c :: rest =>
    if c = ':' ∨ c = ')' then
      if seen.head? = some '-' then .error .nothingToNegate
      else if c = ':' then .ok (f, .body, rest)
      else if seen.isEmpty then .error .nothingToRepeat
      else .ok (f, .directive, rest)
    else if c ∈ seen then .error .duplicateFlag
    else if c = '-' then read f true (c :: seen) rest
    else match f.set? c (!negated) with
      | some f' => read f' negated (c :: seen) rest
      | none => .error .unknownFlag

end Flags

end SourceText.Pattern
