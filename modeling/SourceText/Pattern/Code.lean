import SourceText.Pattern.Node

/-!
# Code

For a search the repetitions of a pattern are written out, and what is left is `Code`: characters,
assertions, the marks of groups, forks where two ways part, and loops. Every fork and every loop has
a number of its own, by which a search knows that it has been there. `Node.code` gives the numbers.

One or more rounds are the body and then a loop over the same body, with the same numbers: whether
the first round or a later one is under way makes no difference to what can follow. Every other
round that is written out has numbers of its own.
-/

namespace SourceText.Pattern

/-- What a search runs. -/
inductive Code where
  /-- Goes on at once. -/
  | empty
  /-- Takes one character of the set. -/
  | set (chars : CharSet)
  /-- Goes on where an assertion holds. -/
  | assertion (a : Assertion)
  /-- Opens a group. -/
  | opening
  /-- Closes the group that was opened last, and records it under an index. -/
  | closing (index : Nat)
  /-- Goes on with the first and then with the second. -/
  | seq (first second : Code)
  /-- Goes on with either, and prefers `first`. -/
  | fork (number : Nat) (first second : Code)
  /-- Goes on with `body` and then comes back, or leaves. A greedy loop prefers the body. -/
  | loop (number : Nat) (body : Code) (greedy : Bool)
  deriving DecidableEq, Repr

namespace Code

/-- Takes the characters of a text. -/
def ofText : Text → Code
  | [] => empty
  | [c] => set (.single c)
  | c :: d :: rest => seq (set (.single c)) (ofText (d :: rest))

/-- A fork with the next number. -/
def newFork (first second : Code) : StateM Nat Code :=
  modifyGet fun n => (fork n first second, n + 1)

/-- A loop with the next number. -/
def newLoop (body : Code) (greedy : Bool) : StateM Nat Code :=
  modifyGet fun n => (loop n body greedy, n + 1)

/-- The code or nothing; what is greedy prefers the code. -/
def newOption (code : Code) (greedy : Bool) : StateM Nat Code :=
  if greedy then newFork code empty else newFork empty code

/-- As many rounds as `count` says, each with its own numbers, and then `next`. -/
def times (body : StateM Nat Code) : (count : Nat) → (next : Code) → StateM Nat Code
  | 0, next => pure next
  | n + 1, next => do times body n (seq (← body) next)

/-- At most as many rounds as `count` says, each within the option of the one before, and then
`inner`. -/
def upTo (body : StateM Nat Code) (greedy : Bool) : (count : Nat) → (inner : Code) →
    StateM Nat Code
  | 0, inner => pure inner
  | n + 1, inner => do upTo body greedy n (← newOption (seq (← body) inner) greedy)

/-- One round or more. -/
def oneOrMore (body : StateM Nat Code) (greedy : Bool) : StateM Nat Code := do
  let round ← body
  return seq round (← newLoop round greedy)

/-- Any number of rounds. Where a round can be empty, that is one round or more, or none. -/
def anyNumber (body : StateM Nat Code) (consumes greedy : Bool) : StateM Nat Code := do
  if consumes then newLoop (← body) greedy else newOption (← oneOrMore body greedy) greedy

/-- As many rounds as two bounds allow. -/
def rounds (body : StateM Nat Code) (consumes greedy : Bool) :
    (min : Nat) → (max : Option Nat) → StateM Nat Code
  | min, some max => do times body min (← upTo body greedy (max - min) empty)
  | 0, none => anyNumber body consumes greedy
  | min + 1, none => do times body min (← oneOrMore body greedy)

end Code

/-- The code of a pattern. -/
def Node.code : Node → StateM Nat Code
  | empty => pure .empty
  | literal text => pure (.ofText text)
  | set s => pure (.set s)
  | assertion a => pure (.assertion a)
  | group index _ body => return .seq .opening (.seq (← body.code) (.closing index))
  | seq a b => return .seq (← a.code) (← b.code)
  | alt a b => do Code.newFork (← a.code) (← b.code)
  | rep body min max greedy =>
    Code.rounds body.code (body.minLength.any (0 < ·)) greedy min max

end SourceText.Pattern
