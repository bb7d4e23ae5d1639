import SourceText.Proofs.Failure
import SourceText.Proofs.Machine.Obtained

/-!
# Failures on the machine

A parser of a segment that is obtained never meets a number that is out of bounds: each call on it
completes with what it answers (`Obtains.parsing`). What an error is about can itself be obtained
(`Obtains.of_substring`), so the machine can count to where it points, and it points where the
document says that the parser's place is (`obtained_failure`).
-/

open SourceText.Parser (Primitive PointsAt)
open SourceText.Segment (LocatedAt)

namespace SourceText

namespace Parser.Primitive

/-- The call of a primitive with a message. -/
def op (message : Parser → Text) : Primitive → Op
  | literal c => .literal c message
  | anyChar => .anyChar message
  | token pattern => .token pattern message
  | blanks => .blanks message
  | word => .word message
  | decimal => .decimal message
  | fail => .fail message

/-- It comes to what the primitive makes of a message that is only a text. -/
theorem perform_op (prim : Primitive) (p : Parser) (message : Parser → Text) :
    p.perform (prim.op message) = Id.run (prim.call p message) := by
  cases prim <;> rfl

end Parser.Primitive

namespace Machine

variable {d : Document} {s t : Segment}

/-- Calls on a parser of a segment that is obtained complete with what they answer. -/
theorem Obtains.parsing (hd : d.InMemory) (hcols : d.ColumnsFit) (hs : Obtains d s)
    (ops : List Parser.Op) (op : Parser.Op) :
    ((Call.parsing ops op).exec s).Completes (((Parser.ofSegment s).run ops).perform op) := by
  obtain ⟨hrun, hp, hsegment⟩ := parserAfter_comesTo (hs.inMemory hd) ops
  have hop := performParser_comesTo hp (by rw [hsegment]; exact hs.inMemory hd) op
  rw [hsegment] at hop
  exact (hrun.bind hop).completes (hs.charsCounted hd hcols)

/-- What an error at a place of a segment that is obtained points at can be counted. -/
theorem Obtains.counted_of_pointsAt (hd : d.InMemory) (hcols : d.ColumnsFit) (hs : Obtains d s)
    {i : Nat} (hi : i ≤ s.length) (h : PointsAt d s i t) : t.start.Counted := by
  rcases Nat.lt_or_eq_of_le hi with hlt | heq
  · obtain ⟨c, hpart, -⟩ := h.char hlt
    exact (hs.of_substring hd hcols hpart).start_counted hd hcols
  · exact (hs.of_substring hd hcols (h.tail heq).1).start_counted hd hcols

/-- A primitive of a parser over a segment that is obtained succeeds without asking for a message,
or fails and asks for it once, from the parser as it is; either way the call completes. The error
points at the parser's place, or is about all of a numeral there that no number can hold, and the
machine can count to where that is. -/
theorem obtained_failure (hd : d.InMemory) (hcols : d.ColumnsFit) (hs : Obtains d s)
    (ops : List Parser.Op) {p : Parser} (hp : (Parser.ofSegment s).run ops = p) (prim : Primitive)
    (what : Text) :
    (prim.Succeeds p ∨
      (∃ t, PointsAt d s p.index t ∧ t.start.Counted ∧ prim.FailsAt p t none) ∨
      prim = .decimal ∧ ∃ stop token e, p.take? Token.numeral = some (token, ⟨s, stop⟩) ∧
        s.substring p.index stop = .ok token ∧
        Decimal.ofNumeral (.ofText token.text) = .error e ∧
        LocatedAt d (s.startOffset + p.index) token ∧ token.start.Counted ∧
        prim.FailsAt p token (some e.message)) ∧
    (∀ (m : Type → Type) [Monad m], (Parser.missingOrInvalid what p : m Text) =
      pure ((if p.index = s.length then "missing " else "invalid ").toList ++ what)) ∧
    ∀ message, ((Call.parsing ops (prim.op message)).exec s).Completes
      (Id.run (prim.call p message)) := by
  have hreach := hs.reachable hd
  obtain ⟨hpoints, hmissing⟩ := prim.call_points hreach hcols ops hp what
  refine ⟨?_, hmissing, fun message => ?_⟩
  · -- What an error is about can be cut out of the segment, so the machine can count to it.
    rcases hpoints with hsucceeds | ⟨t, hpoints, hfails⟩ |
      ⟨hprim, stop, token, e, htake, htoken, he, hlocated, hfails⟩
    · exact .inl hsucceeds
    · obtain ⟨hplaced, hsegment⟩ :=
        Parser.run_placed (Parser.ofSegment_placed hreach.wellPlaced.1) ops
      rw [hp] at hplaced hsegment
      have hindex : p.index ≤ p.segment.length := hplaced.inside.le
      rw [show p.segment = s from hsegment] at hindex
      exact .inr (.inl ⟨t, hpoints, hs.counted_of_pointsAt hd hcols hindex hpoints, hfails⟩)
    · have hcounted := (hs.of_substring hd hcols htoken).start_counted hd hcols
      exact .inr (.inr ⟨hprim, stop, token, e, htake, htoken, he, hlocated, hcounted, hfails⟩)
  · have hrun := hs.parsing hd hcols ops (prim.op message)
    rw [hp, prim.perform_op] at hrun
    exact hrun

/-- A character that is not there is missed on the second line, at its first column. -/
theorem obtained_failure_second_line :
    let p := (Parser.ofSegment (.ofText "a\r\nb".toList [] ⟨0, 0⟩)).run [.moveTo 3]
    ∃ t, (Primitive.literal 'x').FailsAt p t none ∧ t.location = ⟨[], 2, 1⟩ := by
  intro p
  have hs := obtains_of_reachable (d := ⟨"a\r\nb".toList, [], ⟨0, 0⟩⟩)
    (fits_of_columnsFit (by decide) (by decide) (by decide)) .root
  obtain ⟨h, -⟩ :=
    obtained_failure (by decide) (by decide) hs [.moveTo 3] (p := p) rfl (.literal 'x') []
  rcases h with ⟨o, p', ho, hcall⟩ | ⟨t, hpoints, -, hfails⟩ | ⟨hprim, -⟩
  · -- The character is not there.
    have herror : o.isError = true :=
      (congrArg (fun result : Parser.Outcome × Parser => result.1.isError)
        (hcall Id fun _ => [])).symm.trans rfl
    rw [ho] at herror
    cases herror
  · obtain ⟨c, -, -, q, hq, hlocation⟩ := hpoints.char (by decide)
    have hfirst : some q = some ⟨1, 0⟩ := hq.symm.trans rfl
    obtain rfl := Option.some.inj hfirst
    exact ⟨t, hfails, hlocation⟩
  · cases hprim

end Machine

end SourceText
