import SourceText.Parser.Basic
import SourceText.Proofs.Matcher

/-!
# What parsers read

`Parser.perform` is one call on a parser, with what comes of it, and `Parser.run` is any number of
calls. `Parser.Placed` is what all of them keep: the segment is a part of its document, and the
parser stands at a boundary of its text.

A token is what the matcher finds in the region from the parser's place to the end. That is a match
at the start of the text that is left (`take?_eq`), and the parser moves on to where it ends
(`take?_eq_some`). Whatever segment a call answers with, a token,
what is left, or what an error is about, it is a part of the segment that is read (`perform_reads`).
-/

namespace SourceText.Parser

open Text (byteLength isBoundary)

/-! ## Calls -/

/-- One call on a parser. A message is a text that may depend on where the parser stands. -/
inductive Op where
  /-- Takes a certain character. -/
  | literal (c : Char) (message : Parser → Text)
  /-- Takes any character. -/
  | anyChar (message : Parser → Text)
  /-- Takes the text that a pattern matches here. -/
  | token (pattern : Pattern) (message : Parser → Text)
  /-- Takes a run of ASCII blanks. -/
  | blanks (message : Parser → Text)
  /-- Takes a run of characters other than ASCII blanks. -/
  | word (message : Parser → Text)
  /-- Takes a decimal numeral. -/
  | decimal (message : Parser → Text)
  /-- Takes all that is left. -/
  | rest
  /-- Moves forward to the next white space, or to the end. -/
  | skipToBlank
  /-- Moves to an offset. -/
  | moveTo (index : Nat)
  /-- Moves forward by a number of bytes. -/
  | advance (amount : Nat)
  /-- Fails here. -/
  | fail (message : Parser → Text)
  /-- Makes an error about this place. -/
  | errorHere (message : Parser → Text)

/-- What comes of a call. -/
inductive Outcome where
  /-- It has been done. -/
  | done
  /-- A character was taken. -/
  | char (c : Char)
  /-- A text was taken. -/
  | segment (s : Segment)
  /-- A number was taken. -/
  | decimal (d : Decimal)
  /-- The call failed. -/
  | failed (e : ParseError)
  /-- An error was made, and the call did not fail. -/
  | report (e : ParseError)
  /-- An offset does not fit. -/
  | misfit (e : IndexError)
  deriving DecidableEq, Repr

namespace Outcome

/-- The outcome of a primitive that takes some value or fails. -/
def ofAnswer {α : Type} (value : α → Outcome) : Except ParseError α → Outcome
  | .ok a => value a
  | .error e => failed e

/-- The segment that a call answers with, or that its error is about. -/
def segment? : Outcome → Option Segment
  | segment s => some s
  | failed e | report e => some e.segment
  | done | char _ | decimal _ | misfit _ => none

end Outcome

/-- A call, what comes of it, and the parser after it. -/
def perform (p : Parser) : Op → Outcome × Parser
  | .literal c message =>
    let (answer, p) := Id.run (p.literal c message)
    (.ofAnswer (fun _ => .done) answer, p)
  | .anyChar message =>
    let (answer, p) := Id.run (p.anyChar message)
    (.ofAnswer .char answer, p)
  | .token pattern message =>
    let (answer, p) := Id.run (p.token pattern message)
    (.ofAnswer .segment answer, p)
  | .blanks message =>
    let (answer, p) := Id.run (p.blanks message)
    (.ofAnswer .segment answer, p)
  | .word message =>
    let (answer, p) := Id.run (p.word message)
    (.ofAnswer .segment answer, p)
  | .decimal message =>
    let (answer, p) := Id.run (p.decimal message)
    (.ofAnswer .decimal answer, p)
  | .rest => (.segment p.rest.1, p.rest.2)
  | .skipToBlank => (.done, p.skipToBlank)
  | .moveTo index =>
    match p.moveTo index with
    | .ok p => (.done, p)
    | .error e => (.misfit e, p)
  | .advance amount =>
    match p.advance amount with
    | .ok p => (.done, p)
    | .error e => (.misfit e, p)
  | .fail message =>
    let answer : Answer Unit := Id.run (p.fail message)
    (.ofAnswer (fun _ => .done) answer.1, answer.2)
  | .errorHere message => (.report (Id.run (p.errorHere message)), p)

/-- The parser after some calls. -/
def run (p : Parser) (ops : List Op) : Parser := ops.foldl (fun p op => (p.perform op).2) p

/-- A call that fails here stays here. -/
def refusal (p : Parser) (message : Parser → Text) : Outcome × Parser :=
  (.failed ⟨message p, p.here, none⟩, p)

section Equations

variable {p : Parser} {message : Parser → Text}

/-- What comes of a primitive is what it answers. -/
theorem perform_literal {c : Char} : p.perform (.literal c message) =
    (.ofAnswer (fun _ => .done) (Id.run (p.literal c message)).1,
      (Id.run (p.literal c message)).2) := rfl

/-- A call for any character comes to an answer, and to where the parser is then. -/
theorem perform_anyChar : p.perform (.anyChar message) =
    (.ofAnswer .char (Id.run (p.anyChar message)).1, (Id.run (p.anyChar message)).2) := rfl

/-- So does a call for a token. -/
theorem perform_token {pattern : Pattern} : p.perform (.token pattern message) =
    (.ofAnswer .segment (Id.run (p.token pattern message)).1,
      (Id.run (p.token pattern message)).2) := rfl

/-- So does a call for a numeral. -/
theorem perform_decimal : p.perform (.decimal message) =
    (.ofAnswer .decimal (Id.run (p.decimal message)).1, (Id.run (p.decimal message)).2) := rfl

/-- A certain character is taken if it comes next. -/
theorem perform_literal_of_eq {c : Char} (h : p.current? = some c) :
    p.perform (.literal c message) = (.done, ⟨p.segment, p.index + c.utf8Size⟩) := by
  simp only [perform_literal, literal, if_pos h]
  rfl

/-- A certain character is missed if another comes next, or none. -/
theorem perform_literal_of_ne {c : Char} (h : p.current? ≠ some c) :
    p.perform (.literal c message) = p.refusal message := by
  simp only [perform_literal, literal, if_neg h]
  rfl

/-- Any character is taken if one comes next. -/
theorem perform_anyChar_of_some {c : Char} (h : p.current? = some c) :
    p.perform (.anyChar message) = (.char c, ⟨p.segment, p.index + c.utf8Size⟩) := by
  simp only [perform_anyChar, anyChar, h]
  rfl

/-- Any character is missed if none comes next. -/
theorem perform_anyChar_of_none (h : p.current? = none) :
    p.perform (.anyChar message) = p.refusal message := by
  simp only [perform_anyChar, anyChar, h]
  rfl

/-- A token is taken if its pattern matches here. -/
theorem perform_token_of_some {pattern : Pattern} {token : Segment} {p' : Parser}
    (h : p.take? pattern = some (token, p')) :
    p.perform (.token pattern message) = (.segment token, p') := by
  simp only [perform_token, Parser.token, h]
  rfl

/-- A token is missed if its pattern does not match here. -/
theorem perform_token_of_none {pattern : Pattern} (h : p.take? pattern = none) :
    p.perform (.token pattern message) = p.refusal message := by
  simp only [perform_token, Parser.token, h]
  rfl

/-- Without a numeral there is no number. -/
theorem perform_decimal_of_none (h : p.take? Token.numeral = none) :
    p.perform (.decimal message) = p.refusal message := by
  simp only [perform_decimal, decimal, h]
  rfl

/-- A numeral is taken if a number can hold it. -/
theorem perform_decimal_of_ok {token : Segment} {p' : Parser} {d : Decimal}
    (h : p.take? Token.numeral = some (token, p'))
    (hd : Decimal.ofNumeral (.ofText token.text) = .ok d) :
    p.perform (.decimal message) = (.decimal d, p') := by
  simp only [perform_decimal, decimal, h, hd]
  rfl

/-- An error is about all of a numeral that no number can hold, and the parser is put back. -/
theorem perform_decimal_of_error {token : Segment} {p' : Parser} {e : DecimalError}
    (h : p.take? Token.numeral = some (token, p'))
    (he : Decimal.ofNumeral (.ofText token.text) = .error e) :
    p.perform (.decimal message) = (.failed ⟨message p, token, some e.message⟩, p) := by
  simp only [perform_decimal, decimal, h, he]
  rfl

end Equations

/-! ## Tokens -/

/-- The segment is a part of its document, and the parser stands at a boundary of its text. -/
structure Placed (p : Parser) : Prop where
  /-- The segment is a part of its document. -/
  segment : p.segment.WellPlaced
  /-- The place is a boundary. -/
  index : isBoundary p.segment.text p.index

variable {p : Parser}

/-- A parser of a segment begins at its start. -/
theorem ofSegment_placed {s : Segment} (hs : s.WellPlaced) : (ofSegment s).Placed :=
  ⟨hs, Text.isBoundary_zero _⟩

/-- From a boundary to the end there is always a range of the segment. -/
theorem Placed.inside (hp : p.Placed) :
    (⟨p.index, p.segment.length⟩ : Span).Inside p.segment.text 0 p.segment.length where
  start := hp.index
  stop := by simp [hp.segment.length_eq]
  low_le := Nat.zero_le _
  le := by
    rw [hp.segment.length_eq]
    exact Text.le_byteLength_of_isBoundary hp.index
  le_high := Nat.le_refl _

/-- The text that is left is what is behind the parser's place. -/
theorem remaining_eq {l r : Text} (htext : p.segment.text = l ++ r)
    (hl : byteLength l = p.index) : p.remaining = r := by
  unfold remaining
  rw [htext, ← hl, Text.drop?_append]
  rfl

/-- The text is cut at the parser's place. -/
theorem Placed.cut (hp : p.Placed) :
    ∃ l, p.segment.text = l ++ p.remaining ∧ byteLength l = p.index := by
  obtain ⟨l, r, htext, hl⟩ := Text.isBoundary_iff.mp hp.index
  exact ⟨l, by rw [remaining_eq htext hl, htext], hl⟩

/-- What is left goes from the parser's place to the end. -/
theorem Placed.length_eq (hp : p.Placed) :
    p.segment.length = p.index + byteLength p.remaining := by
  obtain ⟨l, htext, hl⟩ := hp.cut
  rw [hp.segment.length_eq, htext, Text.byteLength_append, hl]

/-- The region in which a token is looked for is accepted, and its text is what is left to read. -/
theorem Placed.confine (hp : p.Placed) (pattern : Pattern) :
    ∃ m, (p.segment.matcher pattern).confine p.index p.segment.length = .ok m ∧ m.Coherent ∧
      m.segment = p.segment ∧ m.pattern = pattern ∧ m.region = ⟨p.index, p.segment.length⟩ ∧
      m.haystack = (p.remaining, p.index) := by
  have hcheck := Segment.checkRange_eq_ok_iff.mpr hp.inside
  refine ⟨_, ?_, Matcher.restart_coherent (Matcher.new_coherent hp.segment pattern) hp.inside,
    rfl, rfl, rfl, ?_⟩
  · simp only [Segment.matcher, Matcher.confine, Matcher.new]
    rw [hcheck]
    rfl
  · obtain ⟨l, htext, hl⟩ := hp.cut
    have hslice := Text.slice_append l p.remaining []
    rw [List.append_nil, ← htext, hl, ← hp.segment.length_eq] at hslice
    rw [Matcher.haystack_eq (.inl rfl)]
    exact congrArg (·, p.index) hslice

/-- A token is looked for in the text that is left, and its match has to start there. -/
theorem take?_eq (hp : p.Placed) (pattern : Pattern) :
    p.take? pattern = (pattern.findFrom p.remaining 0).bind fun f =>
      if f.span.start = 0 then
        some (p.segment.derive p.index (p.index + f.span.stop),
          { p with index := p.index + f.span.stop })
      else none := by
  obtain ⟨m, hm, hcoherent, hsegment, hpattern, hregion, hhay⟩ := hp.confine pattern
  have hstart : ∀ f : Pattern.Match, (f.shift m.haystack.2).span.start = m.region.start ↔
      f.span.start = 0 := by
    intro f
    rw [hhay, hregion]
    simp [Pattern.Match.shift, Span.shift]
  -- The matcher is confined to what is left, so it looks at that text from its start.
  have hlook := m.lookingAt_cases
  rw [hhay, hpattern, hregion, Nat.sub_self] at hlook
  unfold take?
  rw [hm]
  simp only
  cases hf : pattern.findFrom p.remaining 0 with
  | none =>
    rcases hlook with hlook | ⟨f, hf', -⟩
    · rw [hlook]
      rfl
    · rw [hf] at hf'
      cases hf'
  | some f =>
    rw [Option.bind_some]
    split_ifs with hzero
    · have hfind : m.pattern.findFrom m.haystack.1 (m.region.start - m.haystack.2) = some f := by
        rw [hhay, hpattern, hregion, Nat.sub_self, hf]
      have htrue := Matcher.lookingAt_eq_true hcoherent.region.le hfind ((hstart f).mpr hzero)
      rw [htrue, hhay]
      simp [Matcher.group?, Matcher.groupAt?, Matcher.groupSpan?, Matcher.accept,
        Pattern.Match.group?, Pattern.Match.shift, Span.shift, hsegment, hzero, Segment.length,
        Segment.derive, Segment.deriveAt]
      omega
    · rcases hlook with hlook | ⟨f', hf', hs, -⟩
      · rw [hlook]
      · rw [hf] at hf'
        obtain rfl := Option.some.inj hf'
        simp only [Pattern.Match.shift, Span.shift] at hs
        omega

/-- A token runs from the parser's place to some later boundary, and the parser moves there. -/
theorem take?_eq_some (hp : p.Placed) {pattern : Pattern} {token : Segment} {p' : Parser}
    (h : p.take? pattern = some (token, p')) :
    ∃ stop, (⟨p.index, stop⟩ : Span).Inside p.segment.text p.index p.segment.length ∧
      token = p.segment.derive p.index stop ∧ p' = { p with index := stop } := by
  rw [take?_eq hp] at h
  obtain ⟨f, hf, hsome⟩ := Option.bind_eq_some_iff.mp h
  split_ifs at hsome with hzero
  obtain ⟨rfl, rfl⟩ := Prod.mk.inj (Option.some.inj hsome)
  refine ⟨p.index + f.span.stop, ?_, rfl, rfl⟩
  -- The match starts the text that is left, so it is a slice of the segment.
  obtain ⟨l, htext, hl⟩ := hp.cut
  have hspan := (Pattern.findFrom_within hf).span.shift (l := l) (r := [])
  rw [List.append_nil, ← htext, hl, Nat.add_zero, ← hp.length_eq] at hspan
  simp only [Span.shift, hzero, Nat.add_zero] at hspan
  exact hspan

/-! ## What comes of a call -/

/-- The parser still reads the segment and stands at a boundary of it, and the segment that the call
answers with is a part of it. -/
structure Reads (p : Parser) (result : Outcome × Parser) : Prop where
  /-- The segment is the same. -/
  segment : result.2.segment = p.segment
  /-- The new place is a boundary. -/
  index : isBoundary p.segment.text result.2.index
  /-- The answer is about a part of the segment. -/
  part : ∀ s, result.1.segment? = some s → p.segment.IsCut s

/-- It stays at a boundary after a call that reads. -/
theorem Reads.placed {result : Outcome × Parser} (h : p.Reads result) (hp : p.Placed) :
    result.2.Placed :=
  ⟨by rw [h.segment]; exact hp.segment, by rw [h.segment]; exact h.index⟩

/-- An error at the parser's place is about a part of the segment. -/
theorem isCut_here (hp : p.Placed) : p.segment.IsCut p.here := by
  unfold here
  cases h : p.segment.charSegmentAt p.index with
  | ok s => exact Segment.isCut_charSegmentAt hp.segment h
  | error e => exact Segment.isCut_tail hp.segment

/-- A call that fails stays where it is and reports a part of the segment. -/
theorem reads_failed (hp : p.Placed) {e : ParseError} (he : p.segment.IsCut e.segment) :
    p.Reads (.failed e, p) where
  segment := rfl
  index := hp.index
  part := by
    intro s hs
    obtain rfl : e.segment = s := Option.some.inj hs
    exact he

/-- A call that answers with no segment and moves to a boundary. -/
theorem reads_of_boundary {o : Outcome} {index : Nat} (ho : o.segment? = none)
    (h : isBoundary p.segment.text index) : p.Reads (o, { p with index := index }) where
  segment := rfl
  index := h
  part := by simp [ho]

/-- Behind the next character there is a boundary. -/
theorem isBoundary_of_current? {c : Char} (h : p.current? = some c) :
    isBoundary p.segment.text (p.index + c.utf8Size) := by
  unfold current? at h
  cases hc : p.segment.charAt p.index with
  | error e => simp [hc, Except.toOption] at h
  | ok d =>
    obtain rfl : d = c := by simpa [hc, Except.toOption] using h
    -- The text is cut before the character, so it is cut behind it too.
    obtain ⟨l, r, htext, hl⟩ := Segment.charAt_eq_ok hc
    have hb := Text.isBoundary_append (l ++ [d]) r
    rw [← htext, Text.byteLength_append, hl] at hb
    simpa using hb

/-- A call that fails here reports a part of the segment. -/
theorem refusal_reads (hp : p.Placed) (message : Parser → Text) : p.Reads (p.refusal message) :=
  reads_failed hp (isCut_here hp)

/-- Asking for a certain character reads. -/
theorem literal_reads (hp : p.Placed) (c : Char) (message : Parser → Text) :
    p.Reads (p.perform (.literal c message)) := by
  by_cases h : p.current? = some c
  · rw [perform_literal_of_eq h]
    exact reads_of_boundary rfl (isBoundary_of_current? h)
  · rw [perform_literal_of_ne h]
    exact refusal_reads hp message

/-- Asking for any character reads. -/
theorem anyChar_reads (hp : p.Placed) (message : Parser → Text) :
    p.Reads (p.perform (.anyChar message)) := by
  cases h : p.current? with
  | none =>
    rw [perform_anyChar_of_none h]
    exact refusal_reads hp message
  | some c =>
    rw [perform_anyChar_of_some h]
    exact reads_of_boundary rfl (isBoundary_of_current? h)

/-- A token is a part of the segment, and so is what an error for want of one is about. -/
theorem token_reads (hp : p.Placed) (pattern : Pattern) (message : Parser → Text) :
    p.Reads (p.perform (.token pattern message)) := by
  cases h : p.take? pattern with
  | none =>
    rw [perform_token_of_none h]
    exact refusal_reads hp message
  | some found =>
    obtain ⟨token, p'⟩ := found
    rw [perform_token_of_some h]
    obtain ⟨stop, hinside, rfl, rfl⟩ := take?_eq_some hp h
    refine ⟨rfl, hinside.stop, ?_⟩
    intro s hs
    obtain rfl := Option.some.inj hs
    exact Segment.isCut_derive hinside

/-- A numeral that writes no number is reported as a whole. -/
theorem decimal_reads (hp : p.Placed) (message : Parser → Text) :
    p.Reads (p.perform (.decimal message)) := by
  cases h : p.take? Token.numeral with
  | none =>
    rw [perform_decimal_of_none h]
    exact refusal_reads hp message
  | some found =>
    obtain ⟨token, p'⟩ := found
    obtain ⟨stop, hinside, htoken, hp'⟩ := take?_eq_some hp h
    cases hd : Decimal.ofNumeral (.ofText token.text) with
    | ok d =>
      rw [perform_decimal_of_ok h hd, hp']
      exact reads_of_boundary rfl hinside.stop
    | error e =>
      -- The token has been found, and the parser goes back to where it stood.
      rw [perform_decimal_of_error h hd]
      refine reads_failed hp ?_
      rw [htoken]
      exact Segment.isCut_derive hinside

/-- What is left is a part of the segment. -/
theorem rest_reads (hp : p.Placed) : p.Reads (p.perform .rest) where
  segment := rfl
  index := hp.inside.stop
  part := by
    intro s hs
    obtain rfl : p.rest.1 = s := Option.some.inj hs
    unfold rest
    cases h : p.segment.substringFrom p.index with
    | ok s => exact Segment.isCut_substring h
    | error e => exact Segment.isCut_tail hp.segment

/-- A place that is accepted is a boundary. -/
theorem moveTo_eq_ok {index : Nat} {p' : Parser} (h : p.moveTo index = .ok p') :
    isBoundary p.segment.text index ∧ p' = { p with index := index } := by
  unfold moveTo at h
  split_ifs at h with hlen hb
  exact ⟨hb, (Except.ok.inj h).symm⟩

/-- Characters are skipped as wholes. -/
theorem isBoundary_skipToBlank (hp : p.Placed) :
    isBoundary p.segment.text p.skipToBlank.index := by
  obtain ⟨l, htext, hl⟩ := hp.cut
  -- What is skipped is a run of characters in front of the rest.
  have hb := Text.isBoundary_append (l ++ p.remaining.takeWhile (!Blank.isBlank ·))
    (p.remaining.dropWhile (!Blank.isBlank ·))
  rw [List.append_assoc, List.takeWhile_append_dropWhile, ← htext, Text.byteLength_append, hl]
    at hb
  exact hb

/-- Whatever a call does, it reads a part of the segment. -/
theorem perform_reads (hp : p.Placed) (op : Op) : p.Reads (p.perform op) := by
  have hstay : ∀ e, p.Reads (.misfit e, p) := fun e => reads_of_boundary rfl hp.index
  -- Every primitive takes a text or refuses; the other calls move to a boundary or stay.
  cases op with
  | literal c message => exact literal_reads hp c message
  | anyChar message => exact anyChar_reads hp message
  | token pattern message => exact token_reads hp pattern message
  | blanks message => exact token_reads hp Token.blanks message
  | word message => exact token_reads hp Token.word message
  | decimal message => exact decimal_reads hp message
  | rest => exact rest_reads hp
  | skipToBlank => exact reads_of_boundary rfl (isBoundary_skipToBlank hp)
  | moveTo index =>
    simp only [perform]
    cases h : p.moveTo index with
    | error e => exact hstay e
    | ok p' =>
      obtain ⟨hb, rfl⟩ := moveTo_eq_ok h
      exact reads_of_boundary rfl hb
  | advance amount =>
    simp only [perform]
    cases h : p.advance amount with
    | error e => exact hstay e
    | ok p' =>
      obtain ⟨hb, rfl⟩ := moveTo_eq_ok h
      exact reads_of_boundary rfl hb
  | fail message => exact refusal_reads hp message
  | errorHere message =>
    refine ⟨rfl, hp.index, ?_⟩
    intro s hs
    obtain rfl : p.here = s := Option.some.inj hs
    exact isCut_here hp

/-- Any calls leave the parser at a boundary of the same segment. -/
theorem run_placed (hp : p.Placed) (ops : List Op) :
    (p.run ops).Placed ∧ (p.run ops).segment = p.segment := by
  induction ops generalizing p with
  | nil => exact ⟨hp, rfl⟩
  | cons op ops ih =>
    have hstep := perform_reads hp op
    obtain ⟨hplaced, hsegment⟩ := ih (hstep.placed hp)
    exact ⟨hplaced, hsegment.trans hstep.segment⟩

end SourceText.Parser
