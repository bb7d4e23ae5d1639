import SourceText.Proofs.Consumption

/-!
# What is behind a parser does not matter

Two parsers may read different segments, at different places, and still have the same text left to
read. Every call that is not given where to go looks at this text alone: a token is a match at its
start that sees nothing of what comes before (`take?_eq`), and all else goes by the next characters.
So such a call takes the same text from both and answers both with the same
(`SameAhead.perform_agree`), and then the same text is left again (`run_lookAlike`).

What the segments have in common that are taken, or that errors are about, depends on what the parts
ahead of the parsers have in common. That is a parameter `R` here: at least they read the same.
-/

namespace SourceText

open Text (byteLength isBoundary)

/-- Two segments read the same. -/
def Segment.SameText (s t : Segment) : Prop := s.text = t.text

/-- Two errors are about related segments and have the same cause, and the same message if the
messages agree. -/
structure ParseError.Rel (R : Segment → Segment → Prop) (agree : Prop) (e e' : ParseError) :
    Prop where
  /-- What they are about. -/
  segment : R e.segment e'.segment
  /-- Why they occurred. -/
  cause : e.cause = e'.cause
  /-- What they say. -/
  message : agree → e.message = e'.message

namespace Parser

/-! ## Outcomes -/

/-- Two calls do the same: both are done, or take the same character or number, or take related
segments, or fail with related errors. -/
inductive Outcome.Rel (R : Segment → Segment → Prop) (agree : Prop) : Outcome → Outcome → Prop where
  /-- Both are done. -/
  | done : Rel R agree .done .done
  /-- Both take a character. -/
  | char (c : Char) : Rel R agree (.char c) (.char c)
  /-- Both take a text. -/
  | segment {s t : Segment} (h : R s t) : Rel R agree (.segment s) (.segment t)
  /-- Both take a number. -/
  | decimal (d : Decimal) : Rel R agree (.decimal d) (.decimal d)
  /-- Both fail. -/
  | failed {e e' : ParseError} (h : e.Rel R agree e') : Rel R agree (.failed e) (.failed e')
  /-- Both make an error. -/
  | report {e e' : ParseError} (h : e.Rel R agree e') : Rel R agree (.report e) (.report e')
  /-- Both refuse an offset. -/
  | misfit (e : IndexError) : Rel R agree (.misfit e) (.misfit e)

/-- The message that goes with a call. -/
def Op.message? : Op → Option (Parser → Text)
  | .literal _ message | .anyChar message | .token _ message | .blanks message | .word message
  | .decimal message | .fail message | .errorHere message => some message
  | .rest | .skipToBlank | .moveTo _ | .advance _ => none

/-- The message of a call, if it has one, says the same of two parsers. It may depend on all that
they are. -/
def Op.SaysSame (op : Op) (p q : Parser) : Prop :=
  ∀ message, op.message? = some message → message p = message q

/-- Whether a call is given where to go. -/
def Op.isMove : Op → Bool
  | .moveTo _ | .advance _ => true
  | .literal _ _ | .anyChar _ | .token _ _ | .blanks _ | .word _ | .decimal _ | .rest | .skipToBlank
  | .fail _ | .errorHere _ => false

/-- Two calls do the same and take the same text, so that they move on by as many bytes. -/
structure Agree (R : Segment → Segment → Prop) (agree : Prop) (p q : Parser)
    (result result' : Outcome × Parser) : Prop where
  /-- They do the same. -/
  outcome : result.1.Rel R agree result'.1
  /-- They take the same text. -/
  taken : ∃ taken, p.Takes result.2.index taken ∧ q.Takes result'.2.index taken

/-! ## What is left -/

variable {p q : Parser}

/-- An error is about the next character, or about nothing at the end. -/
theorem Placed.here_eq_ahead (hp : p.Placed) : p.here = p.ahead (p.remaining.take 1) := by
  rcases here_eq hp with ⟨c, hc, hhere⟩ | ⟨hlen, hhere⟩
  · rw [hp.current?_eq] at hc
    obtain ⟨r, hr⟩ := List.head?_eq_some_iff.mp hc
    simp [hhere, hr, ahead]
  · have hnil : p.remaining = [] := by
      have h := hp.length_eq
      rw [← hlen] at h
      exact Text.byteLength_eq_zero.mp (by omega)
    simp [hhere, hnil, ahead, Segment.tail, hlen]

/-! ## The same text ahead -/

/-- Two parsers have the same text left to read, and what is ahead of them is related by `R`. -/
structure SameAhead (R : Segment → Segment → Prop) (p q : Parser) : Prop where
  /-- The one stands at a boundary of its segment. -/
  left : p.Placed
  /-- So does the other. -/
  right : q.Placed
  /-- The same text is left. -/
  remaining : p.remaining = q.remaining
  /-- The parts that its beginnings take up are related. -/
  ahead : ∀ taken r, p.remaining = taken ++ r → R (p.ahead taken) (q.ahead taken)

namespace SameAhead

/-- What is ahead of two parsers reads the same. -/
theorem sameText (hp : p.Placed) (hq : q.Placed) (h : p.remaining = q.remaining) :
    SameAhead Segment.SameText p q where
  left := hp
  right := hq
  remaining := h
  ahead taken r hr := by
    rw [Segment.SameText, hp.text_ahead hr, hq.text_ahead (h.symm.trans hr)]

variable {R : Segment → Segment → Prop} (h : SameAhead R p q)
include h

/-- The next character is the same. -/
theorem current?_eq : p.current? = q.current? := by
  rw [h.left.current?_eq, h.right.current?_eq, h.remaining]

/-- Both are at the end, or neither is. -/
theorem atEnd_eq : p.atEnd = q.atEnd := by
  have hp := h.left.length_eq
  have hq := h.right.length_eq
  rw [h.remaining] at hp
  unfold atEnd
  rw [decide_eq_decide]
  omega

/-- What an error would be about is related. -/
theorem here_rel : R p.here q.here := by
  rw [h.left.here_eq_ahead, h.right.here_eq_ahead, ← h.remaining]
  exact h.ahead _ _ (List.take_append_drop 1 p.remaining).symm

/-- All that is left is related. -/
theorem rest_rel : R p.rest.1 q.rest.1 := by
  rw [h.left.rest_eq, h.right.rest_eq, ← h.remaining]
  exact h.ahead _ _ (List.append_nil _).symm

/-- Both can take a beginning of the text that is left. -/
theorem takes {taken r : Text} (hr : p.remaining = taken ++ r) :
    ∃ taken', p.Takes (p.index + byteLength taken) taken' ∧
      q.Takes (q.index + byteLength taken) taken' :=
  ⟨taken, h.left.takes hr, h.right.takes (h.remaining.symm.trans hr)⟩

/-- Both can stay where they are. -/
theorem takes_nil : ∃ taken, p.Takes p.index taken ∧ q.Takes q.index taken :=
  h.takes (List.nil_append p.remaining).symm

/-- A token is found by both or by neither, and is the same beginning of the text that is left. -/
theorem take? (pattern : Pattern) :
    (p.take? pattern = none ∧ q.take? pattern = none) ∨
      ∃ taken r, p.remaining = taken ++ r ∧
        p.take? pattern = some (p.ahead taken, ⟨p.segment, p.index + byteLength taken⟩) ∧
        q.take? pattern = some (q.ahead taken, ⟨q.segment, q.index + byteLength taken⟩) := by
  have hp := take?_eq h.left pattern
  have hq := take?_eq h.right pattern
  rw [← h.remaining] at hq
  cases hf : pattern.findFrom p.remaining 0 with
  | none =>
    rw [hf] at hp hq
    exact .inl ⟨hp, hq⟩
  | some f =>
    rw [hf, Option.bind_some] at hp hq
    by_cases hzero : f.span.start = 0
    · rw [if_pos hzero] at hp hq
      obtain ⟨l, taken, r, hcut, hl, hstop⟩ := (Pattern.findFrom_within hf).span.cut
      obtain rfl : l = [] := Text.byteLength_eq_zero.mp (hl.trans hzero)
      rw [List.nil_append] at hcut hstop
      rw [← hstop] at hp hq
      exact .inr ⟨taken, r, hcut, hp, hq⟩
    · rw [if_neg hzero] at hp hq
      exact .inl ⟨hp, hq⟩

/-! ## Calls -/

section Message

variable {agree : Prop} {message : Parser → Text} (hmessage : agree → message p = message q)
include hmessage

/-- Failing in front of the same text agrees, and takes nothing. -/
theorem refusal_agree : Agree R agree p q (p.refusal message) (q.refusal message) :=
  ⟨.failed ⟨h.here_rel, rfl, hmessage⟩, h.takes_nil⟩

/-- A certain character is taken by both, or both refuse what is there. -/
theorem literal_agree (c : Char) :
    Agree R agree p q (p.perform (.literal c message)) (q.perform (.literal c message)) := by
  have hcurrent := h.current?_eq
  by_cases hc : p.current? = some c
  · rw [perform_literal_of_eq hc, perform_literal_of_eq (hcurrent.symm.trans hc)]
    exact ⟨.done, [c], h.left.takes_char hc, h.right.takes_char (hcurrent.symm.trans hc)⟩
  · rw [perform_literal_of_ne hc, perform_literal_of_ne (by rwa [← hcurrent])]
    exact h.refusal_agree hmessage

/-- Both take the next character, or both are at the end. -/
theorem anyChar_agree :
    Agree R agree p q (p.perform (.anyChar message)) (q.perform (.anyChar message)) := by
  have hcurrent := h.current?_eq
  cases hc : p.current? with
  | none =>
    rw [perform_anyChar_of_none hc, perform_anyChar_of_none (hcurrent.symm.trans hc)]
    exact h.refusal_agree hmessage
  | some c =>
    rw [perform_anyChar_of_some hc, perform_anyChar_of_some (hcurrent.symm.trans hc)]
    exact ⟨.char c, [c], h.left.takes_char hc, h.right.takes_char (hcurrent.symm.trans hc)⟩

/-- The pattern of a token matches the same text ahead of both. -/
theorem token_agree (pattern : Pattern) : Agree R agree p q
    (p.perform (.token pattern message)) (q.perform (.token pattern message)) := by
  rcases h.take? pattern with ⟨hp, hq⟩ | ⟨taken, r, hr, hp, hq⟩
  · rw [perform_token_of_none hp, perform_token_of_none hq]
    exact h.refusal_agree hmessage
  · rw [perform_token_of_some hp, perform_token_of_some hq]
    exact ⟨.segment (h.ahead taken r hr), h.takes hr⟩

/-- What number a numeral is, and whether it can be held, depends on its text alone. -/
theorem decimal_agree :
    Agree R agree p q (p.perform (.decimal message)) (q.perform (.decimal message)) := by
  rcases h.take? Token.numeral with ⟨hp, hq⟩ | ⟨taken, r, hr, hp, hq⟩
  · rw [perform_decimal_of_none hp, perform_decimal_of_none hq]
    exact h.refusal_agree hmessage
  · have htext : (q.ahead taken).text = (p.ahead taken).text := by
      rw [h.left.text_ahead hr, h.right.text_ahead (h.remaining.symm.trans hr)]
    cases hd : Decimal.ofNumeral (.ofText (p.ahead taken).text) with
    | ok d =>
      rw [perform_decimal_of_ok hp hd, perform_decimal_of_ok hq (by rw [htext, hd])]
      exact ⟨.decimal d, h.takes hr⟩
    | error e =>
      -- Both have found the numeral, and both go back to where they stood.
      rw [perform_decimal_of_error hp hd, perform_decimal_of_error hq (by rw [htext, hd])]
      exact ⟨.failed ⟨h.ahead taken r hr, rfl, hmessage⟩, h.takes_nil⟩

end Message

/-- Both take all that is left, and need no message for it. -/
theorem rest_agree {agree : Prop} :
    Agree R agree p q (p.perform .rest) (q.perform .rest) := by
  have htakes := h.takes (List.append_nil p.remaining).symm
  rw [← h.left.length_eq, h.remaining, ← h.right.length_eq] at htakes
  exact ⟨.segment h.rest_rel, htakes⟩

/-- Both skip as far as the same blank. -/
theorem skipToBlank_agree {agree : Prop} :
    Agree R agree p q (p.perform .skipToBlank) (q.perform .skipToBlank) := by
  have hcut := List.takeWhile_append_dropWhile (p := (!Blank.isBlank ·)) (l := p.remaining)
  refine ⟨.done, ?_⟩
  simp only [perform, skipToBlank]
  rw [← h.remaining]
  exact h.takes hcut.symm

/-- A call that is not given where to go does the same with both parsers and takes the same text
from them. -/
theorem perform_agree {op : Op} (hop : op.isMove = false) :
    Agree R (op.SaysSame p q) p q (p.perform op) (q.perform op) := by
  cases op with
  | literal c message => exact h.literal_agree (fun hagree => hagree _ rfl) c
  | anyChar message => exact h.anyChar_agree fun hagree => hagree _ rfl
  | token pattern message => exact h.token_agree (fun hagree => hagree _ rfl) pattern
  | blanks message => exact h.token_agree (fun hagree => hagree message rfl) Token.blanks
  | word message => exact h.token_agree (fun hagree => hagree message rfl) Token.word
  | decimal message => exact h.decimal_agree fun hagree => hagree _ rfl
  | rest => exact h.rest_agree
  | skipToBlank => exact h.skipToBlank_agree
  | moveTo _ | advance _ => exact Bool.noConfusion hop
  | fail message => exact h.refusal_agree fun hagree => hagree _ rfl
  | errorHere message =>
    exact ⟨.report ⟨h.here_rel, rfl, fun hagree => hagree message rfl⟩, h.takes_nil⟩

end SameAhead

/-- After such a call the same text is left again. -/
theorem Agree.remaining_eq {R : Segment → Segment → Prop} {agree : Prop}
    {result result' : Outcome × Parser} (h : Agree R agree p q result result')
    (hp : p.Reads result) (hq : q.Reads result') (hremaining : p.remaining = q.remaining) :
    result.2.remaining = result'.2.remaining := by
  obtain ⟨taken, htakes, htakes'⟩ := h.taken
  have hleft := htakes.remaining_after
  have hright := htakes'.remaining_after
  rw [← hp.segment] at hleft
  rw [← hq.segment, ← hremaining, hleft] at hright
  exact List.append_cancel_left hright

/-- Two parsers have the same text left to read, and no call that is not given where to go can tell
them apart by what is read. -/
structure LookAlike (p q : Parser) : Prop where
  /-- The same text is left. -/
  remaining : p.remaining = q.remaining
  /-- Both are at the end, or neither is. -/
  atEnd : p.atEnd = q.atEnd
  /-- The next character is the same. -/
  current? : p.current? = q.current?
  /-- A call does the same and takes the same text. -/
  agree : ∀ op, op.isMove = false →
    Agree Segment.SameText (op.SaysSame p q) p q (p.perform op) (q.perform op)

/-- Parsers with the same text ahead still have it after the same calls. -/
theorem remaining_run (hp : p.Placed) (hq : q.Placed) (h : p.remaining = q.remaining)
    {ops : List Op} (hops : ∀ op ∈ ops, op.isMove = false) :
    (p.run ops).remaining = (q.run ops).remaining := by
  induction ops generalizing p q with
  | nil => exact h
  | cons op ops ih =>
    have hagree := (SameAhead.sameText hp hq h).perform_agree (hops op List.mem_cons_self)
    have hreads := perform_reads hp op
    have hreads' := perform_reads hq op
    exact ih (hreads.placed hp) (hreads'.placed hq) (hagree.remaining_eq hreads hreads' h)
      fun op' hop' => hops op' (List.mem_cons_of_mem op hop')

/-- Two parsers with the same text left to read look alike, and go on looking alike: it does not
matter what segments they read, or what calls have led to where they stand. -/
theorem run_lookAlike {d d' : Document} {s s' : Segment} (hs : Segment.Reachable d s)
    (hs' : Segment.Reachable d' s') (before before' : List Op)
    (hp : (ofSegment s).run before = p) (hq : (ofSegment s').run before' = q)
    (h : p.remaining = q.remaining) (ops : List Op) (hops : ∀ op ∈ ops, op.isMove = false) :
    (p.run ops).LookAlike (q.run ops) := by
  obtain ⟨hplaced, -⟩ := run_placed (ofSegment_placed hs.wellPlaced.1) before
  obtain ⟨hplaced', -⟩ := run_placed (ofSegment_placed hs'.wellPlaced.1) before'
  rw [hp] at hplaced
  rw [hq] at hplaced'
  have hremaining := remaining_run hplaced hplaced' h hops
  have hahead := SameAhead.sameText (run_placed hplaced ops).1 (run_placed hplaced' ops).1
    hremaining
  exact ⟨hremaining, hahead.atEnd_eq, hahead.current?_eq, fun op => hahead.perform_agree⟩

/-- In the middle of a word or at the start of a text, a parser reads on alike. -/
theorem lookAlike_inside_word :
    ((ofSegment (.ofText "abc d".toList [] ⟨0, 0⟩)).run [.moveTo 1]).remaining = "bc d".toList ∧
      (((ofSegment (.ofText "abc d".toList [] ⟨0, 0⟩)).run [.moveTo 1]).run
          [.word fun _ => []]).LookAlike
        ((ofSegment (.ofText "bc d".toList [] ⟨7, 3⟩)).run [.word fun _ => []]) := by
  refine ⟨by decide, ?_⟩
  exact run_lookAlike (.root (d := ⟨"abc d".toList, [], ⟨0, 0⟩⟩))
    (.root (d := ⟨"bc d".toList, [], ⟨7, 3⟩⟩)) [.moveTo 1] [] rfl rfl (by decide)
    [.word fun _ => []] (by simp [Op.isMove])

end Parser

end SourceText
