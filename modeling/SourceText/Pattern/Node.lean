import SourceText.Pattern.CharSet

/-!
# The structure of a pattern

A pattern read from its text is a tree of `Node`s. Whatever depends on flags has been settled in
the tree: letters without regard to case are sets, a line anchor says whether it means the edges of
a line or of the text, and each repetition says which of its matches it prefers.

Trees are put together by `ofSet`, `sequence`, `alternatives` and `repeated`, which keep them in a
plain form: sequences and alternatives are flat, the literals of a sequence are joined, single
characters to choose from are one set, and alternatives that begin with the same parts have those
parts in front. The last of these counts for which match is preferred: what the common parts match
is settled first, and only then which alternative follows.
-/

namespace SourceText.Pattern

/-- What an assertion asks of the place between two characters. -/
inductive Assertion where
  /-- The start of the text. -/
  | textStart
  /-- The end of the text. -/
  | textEnd
  /-- The start of the text, or a place after a line feed. -/
  | lineStart
  /-- The end of the text, or a place before a line feed. -/
  | lineEnd
  /-- A word character on exactly one side. -/
  | wordBoundary
  /-- Word characters on both sides or on neither. -/
  | notWordBoundary
  /-- A word character after the place and none before it. -/
  | wordStart
  /-- A word character before the place and none after it. -/
  | wordEnd
  /-- No word character before the place. -/
  | noWordBefore
  /-- No word character after the place. -/
  | noWordAfter
  deriving DecidableEq, Repr

/-- Whether the assertion holds between the characters `before` and `after`. -/
def Assertion.holds (a : Assertion) (before after : Option Char) : Bool :=
  let wordBefore := before.any Letter.isWord
  let wordAfter := after.any Letter.isWord
  match a with
  | textStart => before.isNone
  | textEnd => after.isNone
  | lineStart => before.all (· == '\n')
  | lineEnd => after.all (· == '\n')
  | wordBoundary => wordBefore != wordAfter
  | notWordBoundary => wordBefore == wordAfter
  | wordStart => !wordBefore && wordAfter
  | wordEnd => wordBefore && !wordAfter
  | noWordBefore => !wordBefore
  | noWordAfter => !wordAfter

/-- A pattern. -/
inductive Node where
  /-- Matches between any two characters. -/
  | empty
  /-- Matches one text. -/
  | literal (text : Text)
  /-- Matches one character of the set. -/
  | set (chars : CharSet)
  /-- Matches between two characters where an assertion holds. -/
  | assertion (a : Assertion)
  /-- Matches as `body` does, and records what it matched under an index and perhaps a name. -/
  | group (index : Nat) (name : Option Text) (body : Node)
  /-- Matches as the first does, and then as the second does. -/
  | seq (first second : Node)
  /-- Matches as either does, and prefers `first`. -/
  | alt (first second : Node)
  /-- Matches `body` at least `min` and, if there is one, at most `max` times. A greedy repetition
  prefers more of them, any other prefers fewer. -/
  | rep (body : Node) (min : Nat) (max : Option Nat) (greedy : Bool)
  deriving DecidableEq, Repr

namespace Node

/-- Matches one character of a set. A set of one character is that character. -/
def ofSet (s : CharSet) : Node :=
  match s.ranges with
  | [⟨first, last⟩] => if first = last then literal [Char.ofNat first] else set s
  | _ => set s

/-- The parts that match one after the other. -/
def parts : Node → List Node
  | empty => []
  | seq a b => a :: b.parts
  | n => [n]

/-- The parts with every run of literals joined into one. -/
def joinLiterals : List Node → List Node
  | [] => []
  | n :: rest =>
    match n, joinLiterals rest with
    | literal s, literal t :: rest => literal (s ++ t) :: rest
    | n, rest => n :: rest

/-- Parts as a chain. -/
def chain : List Node → Node
  | [] => empty
  | [a] => a
  | a :: b :: rest => seq a (chain (b :: rest))

/-- One after the other. -/
def sequence (nodes : List Node) : Node := chain (joinLiterals (nodes.flatMap parts))

/-- The alternatives of a node. -/
def choices : Node → List Node
  | alt a b => a :: b.choices
  | n => [n]

/-- The character that a node is. -/
def char? : Node → Option Char
  | literal [c] => some c
  | _ => none

/-- The set that a node is. -/
def set? : Node → Option CharSet
  | set s => some s
  | _ => none

/-- Alternatives as a chain. -/
def choose : List Node → Node
  | [] => set .empty
  | [a] => a
  | a :: b :: rest => alt a (choose (b :: rest))

/-- Any of some nodes that are no alternatives themselves. If all are characters or all are sets,
they are one set. -/
def anyOf (nodes : List Node) : Node :=
  match nodes, nodes.mapM char?, nodes.mapM set? with
  | [n], _, _ => n
  | _, some chars, _ => ofSet (.ofChars chars)
  | _, none, some sets => ofSet (sets.foldl .union .empty)
  | _, none, none => choose nodes

/-- The parts with which two lists of parts begin alike. -/
def commonParts : List Node → List Node → List Node
  | a :: as, b :: bs => if a = b then a :: commonParts as bs else []
  | _, _ => []

/-- The parts with which all of some nodes begin, if each of them has more than one part. -/
def sharedParts : List Node → List Node
  | [] => []
  | n :: rest =>
    if (n :: rest).all fun m => decide (2 ≤ m.parts.length) then
      rest.foldl (fun shared m => commonParts shared m.parts) n.parts
    else []

/-- Any of them, the earlier the better. Parts that all of them begin with come in front. -/
def alternatives (nodes : List Node) : Node :=
  let nodes := nodes.flatMap choices
  match nodes, sharedParts nodes with
  | [n], _ => n
  | _, [] => anyOf nodes
  | _, shared =>
    let remainders := nodes.map fun n => sequence (n.parts.drop shared.length)
    sequence (shared ++ [anyOf (remainders.flatMap choices)])

/-- Whether the node can match no character at all, whatever it matches. -/
def isZeroWidth : Node → Bool
  | empty | assertion _ => true
  | literal _ | set _ => false
  | group _ _ body => body.isZeroWidth
  | seq a b | alt a b => a.isZeroWidth && b.isZeroWidth
  | rep body _ max _ => max.isSome && body.isZeroWidth

/-- The least number of characters that the node matches. A set without characters, and whatever
holds one, has none. -/
def minLength : Node → Option Nat
  | empty | assertion _ => some 0
  | literal text => some text.length
  | set s => if s.ranges.isEmpty then none else some 1
  | group _ _ body => body.minLength
  | seq a b =>
    match a.minLength, b.minLength with
    | some m, some n => some (m + n)
    | _, _ => none
  | alt a b =>
    match a.minLength, b.minLength with
    | some m, some n => some (min m n)
    | _, _ => none
  | rep body min _ _ => body.minLength.map (min * ·)

/-- The repetition of `body`. One that matches no characters need not be matched more than once.
Nothing is left of a body that is never matched, not even its groups. -/
def repeated (body : Node) (min : Nat) (max : Option Nat) (greedy : Bool) : Node :=
  let once := body.isZeroWidth
  let min := if once then Nat.min min 1 else min
  let max := if once then some ((max.map (Nat.min 1)).getD 1) else max
  if max = some 0 then empty
  else if min = 1 ∧ max = some 1 then body
  else rep body min max greedy

/-- The groups from left to right, with their names. -/
def groups : Node → List (Nat × Option Text)
  | empty | literal _ | set _ | assertion _ => []
  | group index name body => (index, name) :: body.groups
  | seq a b | alt a b => a.groups ++ b.groups
  | rep body _ _ _ => body.groups

/-- The greatest index of a group. -/
def groupCount (n : Node) : Nat := (n.groups.map Prod.fst).foldl max 0

/-- The index of the group of a name. -/
def groupIndex? (n : Node) (name : Text) : Option Nat :=
  (n.groups.find? fun g => g.2 == some name).map Prod.fst

end Node

end SourceText.Pattern
