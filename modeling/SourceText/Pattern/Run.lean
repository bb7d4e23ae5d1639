import SourceText.Pattern.Code

/-!
# Running code over a text

A search goes over a text once, from place to place. At every place it holds the ways in which the
code can be under way there, the preferred one first. `Code.reach` follows one way as far as it goes
without a character: to the sets that may take the next one, and to the end of the code, where a
match is found. `scan` lets every way take its character and goes on at the next place.

The rule of preference is that no fork and no loop is entered twice at the same place. What could
follow from there has been tried already, or is being tried, in a preferred way. So a round that
comes back to the start of a loop without a character goes no further, and the number of ways is
bounded by the code, however long the text is.
-/

namespace SourceText.Pattern

/-- A match. The records of its groups come latest first, so the first one of an index counts. -/
structure Match where
  /-- What the whole pattern matched. -/
  span : Span
  /-- What its groups matched, by index. -/
  groups : List (Nat × Span)
  deriving DecidableEq, Repr

/-- Where the search stands in the text. -/
structure Place where
  /-- The character before. -/
  before : Option Char
  /-- The character after. -/
  after : Option Char
  /-- The offset. -/
  offset : Nat
  deriving DecidableEq, Repr

/-- What a way remembers of how it came. -/
structure Trace where
  /-- The offset where it began. -/
  start : Nat
  /-- The offsets where the open groups began, the innermost first. -/
  opened : List Nat
  /-- What groups have matched so far, the latest first. -/
  groups : List (Nat × Span)
  deriving DecidableEq, Repr

namespace Trace

/-- The trace of a way that begins at an offset. -/
def begin (offset : Nat) : Trace := ⟨offset, [], []⟩

/-- The trace after a group has been opened. -/
def opening (t : Trace) (offset : Nat) : Trace := { t with opened := offset :: t.opened }

/-- The trace after the innermost group has been closed. -/
def closing (t : Trace) (index offset : Nat) : Trace :=
  match t.opened with
  | [] => t
  | start :: outer => { t with opened := outer, groups := (index, ⟨start, offset⟩) :: t.groups }

/-- The match of a way that ends at an offset. -/
def finish (t : Trace) (offset : Nat) : Match := ⟨⟨t.start, offset⟩, t.groups⟩

end Trace

/-- A set of forks and loops, kept as the bits of a number. -/
structure Visited where
  /-- The number. -/
  bits : Nat
  deriving DecidableEq, Repr

namespace Visited

/-- Whether a number belongs to the set. -/
def mem (v : Visited) (number : Nat) : Bool := v.bits.testBit number

/-- The set with one more number. -/
def insert (v : Visited) (number : Nat) : Visited := ⟨v.bits ||| 1 <<< number⟩

/-- The set with `m` holds `m` and what it held before. -/
theorem mem_insert (v : Visited) (m n : Nat) :
    (v.insert m).mem n = (v.mem n || decide (m = n)) := by
  simp [mem, insert, Nat.shiftLeft_eq, Nat.testBit_two_pow]

end Visited

/-- A way that waits for a character. -/
structure Thread where
  /-- The characters that it can take. -/
  chars : CharSet
  /-- What is to be run after that. -/
  rest : List Code
  /-- How it came. -/
  trace : Trace
  deriving DecidableEq, Repr

/-- What has been found at one place. -/
structure Front where
  /-- The forks and loops that have been entered. -/
  visited : Visited := ⟨0⟩
  /-- The ways that wait for the next character, the preferred one last. -/
  threads : List Thread := []
  /-- The match that ends here. It is preferred to all that comes after it. -/
  found : Option Match := none
  deriving DecidableEq, Repr

namespace Front

/-- The front with one more way that waits, unless a match is preferred to it. -/
def wait (f : Front) (t : Thread) : Front :=
  if f.found.isSome then f else { f with threads := t :: f.threads }

/-- The front with a match, unless another is preferred to it. -/
def finish (f : Front) (m : Match) : Front := { f with found := f.found.or (some m) }

/-- The front with one more fork or loop entered. -/
def enter (f : Front) (number : Nat) : Front := { f with visited := f.visited.insert number }

/-- The ways that the character `c` leads on, the preferred one first. -/
def advance (f : Front) (c : Char) : List (List Code × Trace) :=
  f.threads.foldl (fun ways t => if t.chars.mem c then (t.rest, t.trace) :: ways else ways) []

end Front

/-- Follows a way through code as far as it goes without a character. What is to be run after the
code is given twice: as code, for the ways that come to wait within, and as `next`, which follows
the ways that come through. A way that comes back to a loop without a character ends there, because
the loop has been entered at this place. -/
def Code.reach (place : Place) :
    Code → (rest : List Code) → (next : Trace → Front → Front) → Trace → Front → Front
  | empty, _, next, t, f => next t f
  | set chars, rest, _, t, f => f.wait ⟨chars, rest, t⟩
  | assertion a, _, next, t, f => if a.holds place.before place.after then next t f else f
  | opening, _, next, t, f => next (t.opening place.offset) f
  | closing index, _, next, t, f => next (t.closing index place.offset) f
  | seq a b, rest, next, t, f => a.reach place (b :: rest) (b.reach place rest next) t f
  | fork number a b, rest, next, t, f =>
    if f.visited.mem number then f
    else b.reach place rest next t (a.reach place rest next t (f.enter number))
  | loop number body greedy, rest, next, t, f =>
    if f.visited.mem number then f
    else
      let another := body.reach place (loop number body greedy :: rest) (fun _ f => f) t
      if greedy then next t (another (f.enter number)) else another (next t (f.enter number))

/-- Follows a way through all that is to be run. At the end of it there is a match. -/
def reachAll (place : Place) : List Code → Trace → Front → Front
  | [], t, f => f.finish (t.finish place.offset)
  | c :: rest, t, f => c.reach place rest (reachAll place rest) t f

/-- The front at a place that some ways have come to. As long as there is no match, one more way
begins here, after all others. -/
def Front.gather (place : Place) (code : Code) (best : Option Match)
    (ways : List (List Code × Trace)) : Front :=
  let front := ways.foldl (fun f way => reachAll place way.1 way.2 f) {}
  if best.isSome then front else reachAll place [code] (.begin place.offset) front

/-- Goes on with a search over a text. `ways` are those under way at its start, and `best` is the
match found so far, to which all of them are preferred. -/
def scan (code : Code) (ways : List (List Code × Trace)) (best : Option Match)
    (before : Option Char) (offset : Nat) : Text → Option Match
  | [] => (Front.gather ⟨before, none, offset⟩ code best ways).found.or best
  | c :: rest =>
    let front := Front.gather ⟨before, some c, offset⟩ code best ways
    let best := front.found.or best
    let ways := front.advance c
    if best.isSome && ways.isEmpty then best
    else scan code ways best (some c) (offset + c.utf8Size) rest

end SourceText.Pattern
