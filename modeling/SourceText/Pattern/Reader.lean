import SourceText.Pattern.Bracket
import SourceText.Pattern.Weight

/-!
# Reading patterns

`read` turns the text of a pattern into its `Node`, or says why it is none. It goes through the
text sign by sign with a stack of the groups that are open. A group keeps the flags to return to,
the alternatives that are complete, and the items of the one being read. An item is a node, or a
directive that changed the flags and that, unlike a node, cannot be repeated. With each goes the
depth to which its text nests: groups, repetitions, brackets, sequences and alternatives each nest
one deeper than the deepest of their parts.
-/

namespace SourceText.Pattern.Reader

/-- A part of a pattern that has been read. -/
structure Part where
  /-- What it matches, unless it is a directive. -/
  node : Option Node
  /-- How deeply its text nests. -/
  depth : Nat
  deriving DecidableEq, Repr

namespace Part

/-- One sign. -/
def sign (node : Node) : Part := ⟨some node, 0⟩

/-- A directive. -/
def directive : Part := ⟨none, 0⟩

/-- Parts that follow one another, the last one first. -/
def sequence (items : List Part) : Part :=
  ⟨some (.sequence (items.reverse.filterMap node)), nesting (items.map depth)⟩

/-- Alternatives, the last one first. -/
def alternatives (items : List Part) : Part :=
  ⟨some (.alternatives (items.reverse.filterMap node)), nesting (items.map depth)⟩

end Part

/-- What is read inside one group, or inside the whole pattern. -/
structure Level where
  /-- The index and name to record matches under, if any. -/
  capture : Option (Nat × Option Text)
  /-- The flags that hold again after the group. -/
  flagsAfter : Flags
  /-- The complete alternatives, the last one first. -/
  alternatives : List Part
  /-- The items of the alternative being read, the last one first. -/
  items : List Part
  deriving DecidableEq, Repr

namespace Level

/-- All that is read inside the group. -/
def body (l : Level) : Part :=
  match l.alternatives with
  | [] => .sequence l.items
  | others => .alternatives (.sequence l.items :: others)

/-- The group. -/
def close (l : Level) : Part :=
  let node :=
    match l.capture with
    | some (index, name) => l.body.node.map (.group index name)
    | none => l.body.node
  ⟨node, 1 + l.body.depth⟩

/-- The level with one more item. -/
def push (l : Level) (item : Part) : Level := { l with items := item :: l.items }

/-- The level at the start of the next alternative. -/
def nextAlternative (l : Level) : Level :=
  { l with alternatives := .sequence l.items :: l.alternatives, items := [] }

end Level

/-- Where the reading of a pattern stands. -/
structure State where
  /-- The flags that hold here. -/
  flags : Flags
  /-- The innermost group that is open, or the whole pattern. -/
  level : Level
  /-- What is around it, the innermost first. -/
  outer : List Level
  /-- How many groups that record have been opened. -/
  captures : Nat
  /-- Their names, as far as they have any. -/
  names : List Text
  deriving DecidableEq, Repr

namespace State

/-- The reading of a pattern before its first sign. -/
def start (flags : Flags) : State := ⟨flags, ⟨none, flags, [], []⟩, [], 0, []⟩

/-- The state with one more item. -/
def push (s : State) (item : Part) : State := { s with level := s.level.push item }

/-- The state inside a group that has just been opened. -/
def enter (s : State) (capture : Option (Nat × Option Text)) (inside : Flags) : State :=
  { s with flags := inside, level := ⟨capture, s.flags, [], []⟩, outer := s.level :: s.outer }

/-- The state inside a group that records. -/
def enterCapture (s : State) (name : Option Text) : State :=
  let s := { s with captures := s.captures + 1, names := name.toList ++ s.names }
  s.enter (some (s.captures, name)) s.flags

/-- The state after the closing parenthesis of a group. -/
def leave (s : State) : Except SyntaxError State :=
  match s.outer with
  | [] => .error .unopenedGroup
  | parent :: outer =>
    .ok { s with
      flags := s.level.flagsAfter, level := parent.push s.level.close, outer := outer }

/-- The state after a repetition sign: the last item is now repeated. A repetition that is marked
lazy prefers few matches, unless the flags swap the two. -/
def repeatLast (s : State) (min : Nat) (max : Option Nat) (isLazy : Bool) :
    Except SyntaxError State :=
  match s.level.items with
  | ⟨some body, depth⟩ :: items =>
    let node := Node.repeated body min max (isLazy == s.flags.swapGreed)
    .ok { s with level := { s.level with items := ⟨some node, depth + 1⟩ :: items } }
  | _ => .error .nothingToRepeat

end State

/-- Whether `c` may stand in the name of a group, at its start or after it. -/
def isNameSign (first : Bool) (c : Char) : Bool :=
  c == '_' || Letter.isAlphabetic c ||
    (!first && (Letter.isAlphanumeric c || c == '.' || c == '[' || c == ']'))

/-- Reads the name of a group up to and with the angle bracket that closes it. -/
def readName (first : Bool) : Text → Except SyntaxError (Text × Text)
  | [] => .error .badGroupName
  | c :: rest =>
    if c = '>' then if first then .error .badGroupName else .ok ([], rest)
    else if isNameSign first c then (readName false rest).map fun (name, rest) => (c :: name, rest)
    else .error .badGroupName

/-- Opens a named group: its name comes next. -/
def openNamed (s : State) (text : Text) : Except SyntaxError (State × Text) :=
  match readName true text with
  | .error e => .error e
  | .ok (name, rest) =>
    if name ∈ s.names then .error .duplicateGroupName else .ok (s.enterCapture (some name), rest)

/-- Opens a group that does not record, or applies a directive: flags come next. -/
def openFlagged (s : State) (text : Text) : Except SyntaxError (State × Text) :=
  match s.flags.read false [] text with
  | .error e => .error e
  | .ok (flags, .body, rest) => .ok (s.enter none flags, rest)
  | .ok (flags, .directive, rest) => .ok ({ s.push .directive with flags := flags }, rest)

/-- Reads what follows an opening parenthesis. -/
def openGroup (s : State) (text : Text) : Except SyntaxError (State × Text) :=
  match skipSpace s.flags.extended text with
  | '?' :: 'P' :: '<' :: rest => openNamed s rest
  | '?' :: '=' :: _ | '?' :: '!' :: _ | '?' :: '<' :: '=' :: _ | '?' :: '<' :: '!' :: _ =>
    .error .lookAround
  | '?' :: '<' :: rest => openNamed s rest
  | '?' :: rest => openFlagged s rest
  | rest => .ok (s.enterCapture none, rest)

/-- A count of a repetition, which is less than `2 ^ 32`. There may be blanks around it. -/
def readCount (extended : Bool) (text : Text) : Except SyntaxError (Option Nat × Text) :=
  let (digits, rest) := readAll extended Char.isDigit (text.dropWhile Blank.isBlank)
  let count := Digits.value 10 digits
  if digits.isEmpty then .ok (none, rest.dropWhile Blank.isBlank)
  else if count < Nat.pow 2 32 then .ok (some count, rest.dropWhile Blank.isBlank)
  else .error .badCount

/-- Reads the counts of a repetition after its opening brace, up to and with the closing one. -/
def readCounts (extended : Bool) (text : Text) :
    Except SyntaxError ((Nat × Option Nat) × Text) := do
  let (least, rest) ← readCount extended (skipSpace extended text)
  match least, rest with
  | some n, '\x7d' :: rest => return ((n, some n), rest)
  | some n, ',' :: rest =>
    match skipSpace extended rest with
    | '\x7d' :: rest => return ((n, none), rest)
    | rest =>
      let (greatest, rest) ← readCount extended rest
      match greatest, rest with
      | some m, '\x7d' :: rest =>
        if n ≤ m then return ((n, some m), rest) else throw .reversedCount
      | _, _ => throw .badCount
  | _, _ => throw .badCount

/-- Repeats the last item a counted number of times: the counts come next. -/
def readCounted (s : State) (text : Text) : Except SyntaxError (State × Text) := do
  let ((min, max), rest) ← readCounts s.flags.extended text
  match skipSpace s.flags.extended rest with
  | '?' :: rest => return (← s.repeatLast min max true, rest)
  | rest => return (← s.repeatLast min max false, rest)

/-- Repeats the last item as one of the signs `*`, `+` and `?` says. -/
def readUncounted (s : State) (min : Nat) (max : Option Nat) (text : Text) :
    Except SyntaxError (State × Text) := do
  match text with
  | '?' :: rest => return (← s.repeatLast min max true, rest)
  | rest => return (← s.repeatLast min max false, rest)

/-- The node of one sign outside classes. -/
def nodeOfAtom (flags : Flags) : Atom → Node
  | .char c => .ofSet ((CharSet.single c).foldedIf flags.ignoreCase)
  | .set s => .ofSet s
  | .assertion a => .assertion a

/-- Reads one sign `c` and what belongs to it. -/
def readSign (s : State) (c : Char) (rest : Text) : Except SyntaxError (State × Text) :=
  if c = '(' then openGroup s rest
  else if c = ')' then s.leave.map (·, rest)
  else if c = '|' then .ok ({ s with level := s.level.nextAlternative }, rest)
  else if c = '[' then
    (Bracket.read s.flags rest).map fun (a, rest) => (s.push ⟨some (.ofSet a.set), a.depth⟩, rest)
  else if c = '*' then readUncounted s 0 none rest
  else if c = '+' then readUncounted s 1 none rest
  else if c = '?' then readUncounted s 0 (some 1) rest
  else if c = '\x7b' then readCounted s rest
  else if c = '.' then
    .ok (s.push (.sign (.set (if s.flags.dotAll then .full else .notLineFeed))), rest)
  else if c = '^' then
    .ok (s.push (.sign (.assertion (if s.flags.multiLine then .lineStart else .textStart))), rest)
  else if c = '$' then
    .ok (s.push (.sign (.assertion (if s.flags.multiLine then .lineEnd else .textEnd))), rest)
  else if c = '\\' then
    (readEscape s.flags.extended rest).map fun (a, rest) =>
      (s.push (.sign (nodeOfAtom s.flags a)), rest)
  else .ok (s.push (.sign (nodeOfAtom s.flags (.char c))), rest)

/-- Reads on to the end of the pattern. Every step takes at least one character, so the length of
the text bounds their number. -/
def readSigns : Nat → State → Text → Except SyntaxError Part
  | fuel, s, text =>
    match fuel, skipSpace s.flags.extended text with
    | _, [] => if s.outer.isEmpty then .ok s.level.body else .error .unclosedGroup
    | 0, _ :: _ => .error .unclosedGroup
    | n + 1, c :: rest =>
      match readSign s c rest with
      | .error e => .error e
      | .ok (s, rest) => readSigns n s rest

/-- The depth to which the parts of a pattern may nest. -/
def maxDepth : Nat := 250

/-- Reads a whole pattern. -/
def read (flags : Flags) (text : Text) : Except SyntaxError Node :=
  match readSigns text.length (.start flags) text with
  | .error e => .error e
  | .ok p =>
    let node := p.node.getD .empty
    if maxDepth < p.depth then .error .tooDeep
    else if maxWeight < node.weight then .error .tooLarge
    else .ok node

end SourceText.Pattern.Reader
