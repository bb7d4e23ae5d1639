import SourceText.Pattern.Node

/-!
# The weight of patterns

A counted repetition writes out its body many times, so that a short text can stand for a very large
pattern. `Node.weight` is about the number of bytes that the written-out pattern takes in a compact
form of 32 bytes a step, and `maxWeight` is the weight that a pattern may have.
-/

namespace SourceText.Pattern

/-- The weight that a pattern may have: ten mebibytes. -/
def maxWeight : Nat := 10 * Nat.pow 2 20

/-- The weight of a set of characters. Beyond ASCII a range takes a few steps, one for each byte of
its characters. -/
def CharSet.weight (s : CharSet) : Nat :=
  if s.ranges.all fun r => decide (r.last < 0x80) then 64 + 8 * s.ranges.length
  else 500 + 90 * s.ranges.length

/-- The weight of a pattern. A fork weighs 40. -/
def Node.weight : Node → Nat
  | empty | assertion _ => 32
  | literal text => 32 * Text.byteLength text
  | set s => s.weight
  | group _ _ body => body.weight + 64
  | seq a b => a.weight + b.weight
  | alt a b => a.weight + b.weight + 40
  | rep body min (some max) _ => max * body.weight + (max - min) * 40
  | rep body min none _ => Nat.max min 1 * body.weight + 40

end SourceText.Pattern
