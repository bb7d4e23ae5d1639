import SourceText.Pattern.Escape

/-!
# Bracketed classes

A class such as `[a-z&&[^aeiou]]` is read with a stack of its open brackets. Each level keeps what
has been read since its bracket: the members so far, and the left side of a set operation that
waits for its right side. All set operations bind alike and group to the left. Without regard to
case, the sides of an operation and the members of a bracket are closed under case before they are
combined or negated. With each set goes the depth to which its brackets and operations nest.
-/

namespace SourceText.Pattern.Bracket

/-- The operations of classes, written with a doubled sign. -/
inductive SetOperation where
  | inter
  | diff
  | symmDiff
  deriving DecidableEq, Repr

/-- The set that an operation makes of two. -/
def SetOperation.apply : SetOperation → CharSet → CharSet → CharSet
  | inter, a, b => .inter a b
  | diff, a, b => a.diff b
  | symmDiff, a, b => a.symmDiff b

/-- A set that has been read. -/
structure Operand where
  /-- The set. -/
  set : CharSet
  /-- How deeply its text nests. -/
  depth : Nat
  deriving DecidableEq, Repr

/-- The set of one sign or of one range. -/
def Operand.sign (s : CharSet) : Operand := ⟨s, 0⟩

/-- A bracket that is still open. -/
structure Level where
  /-- Whether the bracket means the characters outside it. -/
  negated : Bool
  /-- The left side of an operation, and the operation. -/
  pending : Option (Operand × SetOperation)
  /-- What has been read since the bracket or the last operation, the last member first. -/
  members : List Operand
  deriving DecidableEq, Repr

namespace Level

/-- The union of the members read so far. Two members or more nest one deeper than the deepest of
them. -/
def union (l : Level) : Operand where
  set := l.members.foldl (fun s m => s.union m.set) .empty
  depth := nesting (l.members.map Operand.depth)

/-- The result of the pending operation, or the members alone when there is none. -/
def combined (fold : Bool) (l : Level) : Operand :=
  match l.pending with
  | none => l.union
  | some (a, op) =>
    ⟨op.apply (a.set.foldedIf fold) (l.union.set.foldedIf fold), 1 + max a.depth l.union.depth⟩

/-- The set that the bracket means once it is closed. -/
def close (fold : Bool) (l : Level) : Operand :=
  let all := l.combined fold
  ⟨(all.set.foldedIf fold).negatedIf l.negated, 1 + all.depth⟩

/-- The level with one more member. -/
def add (l : Level) (m : Operand) : Level := { l with members := m :: l.members }

/-- The level that waits for the right side of an operation. -/
def await (fold : Bool) (l : Level) (op : SetOperation) : Level :=
  { l with pending := some (l.combined fold, op), members := [] }

end Level

/-- Reads what may follow a bracket before its members: a caret that negates it, then hyphens that
stand for themselves or, if there is none, a closing bracket that does. -/
def readOpening (extended : Bool) (text : Text) : Except SyntaxError (Level × Text) :=
  match skipSpace extended text with
  | [] => .error .unclosedClass
  | c :: rest =>
    let negated := c == '^'
    match readAll extended (· == '-') (if negated then skipSpace extended rest else c :: rest) with
    | (_, []) => .error .unclosedClass
    | ([], d :: rest) =>
      if d = ']' then
        match skipSpace extended rest with
        | [] => .error .unclosedClass
        | e :: rest => .ok (⟨negated, none, [.sign (.single ']')]⟩, e :: rest)
      else .ok (⟨negated, none, []⟩, d :: rest)
    | (hyphens, d :: rest) =>
      .ok (⟨negated, none, hyphens.map fun c => .sign (.single c)⟩, d :: rest)

/-- Reads the rest of an ASCII class such as `[:alpha:]` after its bracket; `[:^alpha:]` is the
class negated. Anything that does not fit is no such class, and its bracket opens a nested one. -/
def readAsciiClass? : Text → Option (Bool × CharSet × Text)
  | ':' :: rest =>
    let negated := rest.head? == some '^'
    let rest := if negated then rest.tail else rest
    match rest.dropWhile (· != ':') with
    | ':' :: ']' :: after =>
      (CharSet.ofAsciiName? (rest.takeWhile (· != ':'))).map (negated, ·, after)
    | _ => none
  | _ => none

/-- Reads one sign of a class. -/
def readAtom (extended : Bool) : Text → Except SyntaxError (Atom × Text)
  | [] => .error .unclosedClass
  | c :: rest => if c = '\\' then readEscape extended rest else .ok (.char c, rest)

/-- The set of one sign of a class. -/
def setOfAtom : Atom → Except SyntaxError CharSet
  | .char c => .ok (.single c)
  | .set s => .ok s
  | .assertion _ => .error .notACharacter

/-- The first sign after a hyphen. An extended pattern looks past blanks and a number sign among
them; if there is nothing else, the blank itself counts. -/
def signAfterHyphen (extended : Bool) (text : Text) : Option Char :=
  if extended then
    let ahead := text.dropWhile Blank.isBlank
    let ahead := if ahead.head? = some '#' then ahead.tail.dropWhile Blank.isBlank else ahead
    (ahead.head?).or text.head?
  else text.head?

/-- Reads a sign, or a range if a hyphen follows that is neither the last sign of the bracket nor
the first half of an operation. -/
def readMember (extended : Bool) (text : Text) : Except SyntaxError (CharSet × Text) :=
  match readAtom extended text with
  | .error e => .error e
  | .ok (low, rest) =>
    match skipSpace extended rest with
    | [] => .error .unclosedClass
    | c :: rest =>
      let next := signAfterHyphen extended rest
      if c ≠ '-' ∨ next = some ']' ∨ next = some '-' then
        (setOfAtom low).map (·, c :: rest)
      else match readAtom extended (skipSpace extended rest) with
        | .error e => .error e
        | .ok (high, rest) =>
          match low, high with
          | .char a, .char b =>
            if a.toNat ≤ b.toNat then .ok (⟨[⟨a.toNat, b.toNat⟩]⟩, rest)
            else .error .reversedRange
          | _, _ => .error .notACharacter

/-- The operation whose doubled sign a text starts with. -/
def operationAt? : Text → Option (SetOperation × Text)
  | '&' :: '&' :: rest => some (.inter, rest)
  | '-' :: '-' :: rest => some (.diff, rest)
  | '~' :: '~' :: rest => some (.symmDiff, rest)
  | _ => none

/-- Reads on to the end of the outermost bracket. Every step takes at least one character, so the
length of the text bounds their number. -/
def readMembers (extended fold : Bool) :
    Nat → Level → List Level → Text → Except SyntaxError (Operand × Text)
  | 0, _, _, _ => .error .unclosedClass
  | n + 1, level, outer, text =>
    match skipSpace extended text with
    | [] => .error .unclosedClass
    | c :: rest =>
      if c = '[' then
        match readAsciiClass? rest with
        | some (negated, s, rest) =>
          let s := (s.foldedIf fold).negatedIf negated
          readMembers extended fold n (level.add (.sign s)) outer rest
        | none =>
          match readOpening extended rest with
          | .error e => .error e
          | .ok (inner, rest) => readMembers extended fold n inner (level :: outer) rest
      else if c = ']' then
        match outer with
        | [] => .ok (level.close fold, rest)
        | parent :: outer =>
          readMembers extended fold n (parent.add (level.close fold)) outer rest
      else match operationAt? (c :: rest) with
        | some (op, rest) => readMembers extended fold n (level.await fold op) outer rest
        | none =>
          match readMember extended (c :: rest) with
          | .error e => .error e
          | .ok (s, rest) => readMembers extended fold n (level.add (.sign s)) outer rest

/-- Reads a class after its opening bracket, up to and with its closing one. -/
def read (flags : Flags) (text : Text) : Except SyntaxError (Operand × Text) :=
  match readOpening flags.extended text with
  | .error e => .error e
  | .ok (level, rest) =>
    readMembers flags.extended flags.ignoreCase (rest.length + 1) level [] rest

end SourceText.Pattern.Bracket
