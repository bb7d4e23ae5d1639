import SourceText.Proofs.Leftmost
import SourceText.Proofs.Reachable

/-!
# What parsers take

`Parser.Effect` says of every call on a parser what can come of it, and when. A call that succeeds
takes the text between the parser's place and the new one (`Takes`): the character that is asked for
or answered with, the text of the token, the numeral, or what is left. A call that fails leaves the
parser as it is. A token is a match of its pattern at the start of the text that is left, and there
is one whenever the pattern has such a match, because then the leftmost match starts there
(`exists_take?`).
-/

namespace SourceText.Parser

open Text (byteLength isBoundary)

/-! ## Taking a text -/

/-- A text lies between the parser's place and a later one. -/
structure Takes (p : Parser) (stop : Nat) (taken : Text) : Prop where
  /-- The place is no earlier. -/
  le : p.index ≤ stop
  /-- The text lies in between. -/
  slice : Text.slice? p.segment.text p.index stop = some taken

/-- A token is the part between the parser's place and a later one, and a pattern matches it at the
start of the text that is left. -/
structure TakesToken (p : Parser) (pattern : Pattern) (stop : Nat) (token : Segment) : Prop where
  /-- Its text lies in between. -/
  takes : p.Takes stop token.text
  /-- It is that part. -/
  substring : p.segment.substring p.index stop = .ok token
  /-- It is a match. -/
  matched : pattern.Matches p.remaining ⟨0, byteLength token.text⟩

variable {p : Parser}

/-- The beginning of the text that is left can be taken. -/
theorem Placed.takes (hp : p.Placed) {taken r : Text} (h : p.remaining = taken ++ r) :
    p.Takes (p.index + byteLength taken) taken := by
  obtain ⟨l, htext, hl⟩ := hp.cut
  refine ⟨Nat.le_add_right _ _, Text.slice?_eq_some_iff.mpr ⟨l, r, ?_, hl, ?_⟩⟩
  · rw [htext, h, List.append_assoc]
  · rw [Text.byteLength_append, hl]

/-- The part of the segment that is the beginning of the text that is left. -/
def ahead (p : Parser) (taken : Text) : Segment :=
  p.segment.derive p.index (p.index + byteLength taken)

/-- The part that a beginning of what is left takes up reads as that beginning. -/
theorem Placed.text_ahead (hp : p.Placed) {taken r : Text} (h : p.remaining = taken ++ r) :
    (p.ahead taken).text = taken := by
  obtain ⟨l, htext, hl⟩ := hp.cut
  rw [h, ← List.append_assoc] at htext
  rw [ahead, ← hl, ← Text.byteLength_append]
  exact hp.segment.text_derive htext

/-- All that is left is the part up to the end. -/
theorem Placed.rest_eq (hp : p.Placed) :
    p.rest = (p.ahead p.remaining, ⟨p.segment, p.segment.length⟩) := by
  have hsub : p.segment.substring p.index p.segment.length =
      .ok (p.segment.derive p.index p.segment.length) :=
    Segment.substring_eq_ok_iff.mpr ⟨hp.inside, rfl⟩
  rw [ahead, ← hp.length_eq]
  simp only [rest, Segment.substringFrom, hsub]

/-- Nothing else can. -/
theorem Takes.remaining_eq {stop : Nat} {taken : Text} (h : p.Takes stop taken) :
    ∃ r, p.remaining = taken ++ r ∧ stop = p.index + byteLength taken := by
  obtain ⟨l, r, htext, hl, hstop⟩ := Text.slice?_eq_some_iff.mp h.slice
  refine ⟨r, Parser.remaining_eq (by rw [htext, List.append_assoc]) hl, ?_⟩
  rw [← hstop, Text.byteLength_append, hl]

/-- Once a text has been taken, what follows it is left. -/
theorem Takes.remaining_after {stop : Nat} {taken : Text} (h : p.Takes stop taken) :
    p.remaining = taken ++ (⟨p.segment, stop⟩ : Parser).remaining := by
  obtain ⟨l, r, htext, hl, hstop⟩ := Text.slice?_eq_some_iff.mp h.slice
  have hafter : (⟨p.segment, stop⟩ : Parser).remaining = r :=
    Parser.remaining_eq htext hstop
  rw [hafter]
  exact Parser.remaining_eq (by rw [htext, List.append_assoc]) hl

/-- The next character is the first of the text that is left. -/
theorem Placed.current?_eq (hp : p.Placed) : p.current? = p.remaining.head? := by
  obtain ⟨l, htext, hl⟩ := hp.cut
  have hchar : Text.charAt? p.segment.text p.index = p.remaining.head? := by
    rw [htext, ← hl, Text.charAt?_append]
  have hlen := hp.length_eq
  unfold current? Segment.charAt
  rw [hchar]
  cases hr : p.remaining with
  | nil =>
    rw [if_pos (by rw [hlen, hr]; simp)]
    rfl
  | cons c r =>
    have := c.utf8Size_pos
    rw [if_neg (by rw [hlen, hr, Text.byteLength_cons]; omega)]
    rfl

/-- The next character can be taken. -/
theorem Placed.takes_char (hp : p.Placed) {c : Char} (h : p.current? = some c) :
    p.Takes (p.index + c.utf8Size) [c] := by
  rw [hp.current?_eq] at h
  obtain ⟨r, hr⟩ := List.head?_eq_some_iff.mp h
  exact hp.takes (show p.remaining = [c] ++ r from hr)

/-- A character that can be taken is the next one. -/
theorem Takes.current?_eq (hp : p.Placed) {stop : Nat} {c : Char} (h : p.Takes stop [c]) :
    p.current? = some c := by
  obtain ⟨r, hr, -⟩ := h.remaining_eq
  rw [hp.current?_eq, hr]
  rfl

/-- Behind a text that has been taken a parser can stand too. -/
theorem Takes.placed (hp : p.Placed) {stop : Nat} {taken : Text} (h : p.Takes stop taken) :
    (⟨p.segment, stop⟩ : Parser).Placed := by
  obtain ⟨l, r, htext, -, hstop⟩ := Text.slice?_eq_some_iff.mp h.slice
  exact ⟨hp.segment, Text.isBoundary_iff.mpr ⟨l ++ taken, r, htext, hstop⟩⟩

/-- The characters with a property that come next, as far as they go, can be taken. -/
theorem Placed.takes_run (hp : p.Placed) (f : Char → Bool) :
    p.Takes (p.index + byteLength (p.remaining.takeWhile f)) (p.remaining.takeWhile f) :=
  hp.takes List.takeWhile_append_dropWhile.symm

/-- The rest is left then. -/
theorem Placed.remaining_behind_run (hp : p.Placed) (f : Char → Bool) :
    (⟨p.segment, p.index + byteLength (p.remaining.takeWhile f)⟩ : Parser).remaining =
      p.remaining.dropWhile f := by
  obtain ⟨l, htext, hl⟩ := hp.cut
  refine remaining_eq (l := l ++ p.remaining.takeWhile f) ?_ ?_
  · rw [List.append_assoc, List.takeWhile_append_dropWhile]
    exact htext
  · rw [Text.byteLength_append, hl]

/-- The next character does not have the property. -/
theorem Placed.next_behind_run (hp : p.Placed) {f : Char → Bool} {c : Char}
    (h : (⟨p.segment, p.index + byteLength (p.remaining.takeWhile f)⟩ : Parser).current? = some c) :
    f c = false := by
  rw [((hp.takes_run f).placed hp).current?_eq, hp.remaining_behind_run] at h
  have hnot := List.head?_dropWhile_not f p.remaining
  rw [h] at hnot
  simpa using hnot

/-- There is no next character at the end only. -/
theorem Placed.current?_eq_none_iff (hp : p.Placed) :
    p.current? = none ↔ p.index = p.segment.length := by
  rw [hp.current?_eq, List.head?_eq_none_iff, hp.length_eq, ← Text.byteLength_eq_zero]
  omega

/-- The character at the parser's place, or else the empty segment at the end. -/
theorem here_eq (hp : p.Placed) :
    (∃ c, p.current? = some c ∧ p.here = p.segment.derive p.index (p.index + c.utf8Size)) ∨
      p.index = p.segment.length ∧ p.here = p.segment.tail := by
  unfold here Segment.charSegmentAt
  cases h : p.current? with
  | none =>
    have hlen := hp.current?_eq_none_iff.mp h
    exact .inr ⟨hlen, by rw [if_pos hlen]⟩
  | some c =>
    have hlen : p.index ≠ p.segment.length := fun hlen => by
      rw [hp.current?_eq_none_iff.mpr hlen] at h
      cases h
    left
    unfold current? at h
    cases hc : p.segment.charAt p.index with
    | error e => simp [hc, Except.toOption] at h
    | ok c' =>
      obtain rfl : c' = c := by simpa [hc, Except.toOption] using h
      exact ⟨c', rfl, by rw [if_neg hlen]; rfl⟩

/-- A token that is found is a match at the start of the text that is left. -/
theorem Placed.takesToken (hp : p.Placed) {pattern : Pattern} {token : Segment} {p' : Parser}
    (h : p.take? pattern = some (token, p')) :
    ∃ stop, p.TakesToken pattern stop token ∧ p' = ⟨p.segment, stop⟩ := by
  obtain ⟨stop, hinside, rfl, rfl⟩ := take?_eq_some hp h
  rw [take?_eq hp] at h
  obtain ⟨f, hf, hsome⟩ := Option.bind_eq_some_iff.mp h
  split_ifs at hsome with hzero
  obtain rfl : p.index + f.span.stop = stop :=
    congrArg (fun found : Segment × Parser => found.2.index) (Option.some.inj hsome)
  -- The match is in front of the text that is left.
  have hmatch := Pattern.findFrom_matches hf
  obtain ⟨l', m, r, hremaining, hl', hm, -⟩ := id hmatch
  obtain rfl : l' = [] := Text.byteLength_eq_zero.mp (hl'.trans hzero)
  rw [List.nil_append] at hremaining hm
  have htoken := hp.text_ahead hremaining
  rw [ahead, hm] at htoken
  refine ⟨_, ⟨?_, ?_, ?_⟩, rfl⟩
  · rw [htoken, ← hm]
    exact hp.takes hremaining
  · exact Segment.substring_eq_ok_iff.mpr
      ⟨hinside.mono (Nat.zero_le _) (Nat.le_refl _), rfl⟩
  · rw [htoken, hm, ← hzero]
    exact hmatch

/-- If the pattern has a match at the start of the text that is left, a token is found. -/
theorem Placed.exists_take? (hp : p.Placed) {pattern : Pattern} {stop : Nat}
    (h : pattern.Matches p.remaining ⟨0, stop⟩) : (p.take? pattern).isSome = true := by
  obtain ⟨f, hf, hle⟩ := Pattern.exists_findFrom (Text.isBoundary_zero _) h (Nat.le_refl _)
  rw [take?_eq hp, hf, Option.bind_some, if_pos (Nat.le_zero.mp hle)]
  rfl

/-! ## What can come of a call -/

/-- What can come of a call, and when. -/
inductive Effect (p : Parser) : Op → Outcome × Parser → Prop where
  /-- The character comes next, and is taken. -/
  | literal {c : Char} {message : Parser → Text} {stop : Nat} (h : p.Takes stop [c]) :
    Effect p (.literal c message) (.done, ⟨p.segment, stop⟩)
  /-- The character does not come next. -/
  | noLiteral {c : Char} {message : Parser → Text} (h : ∀ stop, ¬ p.Takes stop [c]) :
    Effect p (.literal c message) (p.refusal message)
  /-- The next character is taken. -/
  | anyChar {c : Char} {message : Parser → Text} {stop : Nat} (h : p.Takes stop [c]) :
    Effect p (.anyChar message) (.char c, ⟨p.segment, stop⟩)
  /-- There is no next character. -/
  | noChar {message : Parser → Text} (h : p.index = p.segment.length) :
    Effect p (.anyChar message) (p.refusal message)
  /-- A token is taken. -/
  | token {pattern : Pattern} {message : Parser → Text} {token : Segment} {stop : Nat}
    (h : p.TakesToken pattern stop token) :
    Effect p (.token pattern message) (.segment token, ⟨p.segment, stop⟩)
  /-- The pattern has no match at the start of the text that is left. -/
  | noToken {pattern : Pattern} {message : Parser → Text}
    (h : ∀ stop, ¬ pattern.Matches p.remaining ⟨0, stop⟩) :
    Effect p (.token pattern message) (p.refusal message)
  /-- A run of blanks is a token. -/
  | blanks {message : Parser → Text} {result : Outcome × Parser}
    (h : Effect p (.token Token.blanks message) result) : Effect p (.blanks message) result
  /-- A run of other characters is one too. -/
  | word {message : Parser → Text} {result : Outcome × Parser}
    (h : Effect p (.token Token.word message) result) : Effect p (.word message) result
  /-- A numeral is taken, and is a number. -/
  | decimal {message : Parser → Text} {token : Segment} {stop : Nat} {d : Decimal}
    (h : p.TakesToken Token.numeral stop token)
    (hd : Decimal.ofNumeral (.ofText token.text) = .ok d) :
    Effect p (.decimal message) (.decimal d, ⟨p.segment, stop⟩)
  /-- The numeral is no number that can be held, and is not taken. -/
  | noDecimal {message : Parser → Text} {token : Segment} {stop : Nat} {e : DecimalError}
    (h : p.TakesToken Token.numeral stop token)
    (he : Decimal.ofNumeral (.ofText token.text) = .error e) :
    Effect p (.decimal message) (.failed ⟨message p, token, some e.message⟩, p)
  /-- There is no numeral at the start of the text that is left. -/
  | noNumeral {message : Parser → Text}
    (h : ∀ stop, ¬ Token.numeral.Matches p.remaining ⟨0, stop⟩) :
    Effect p (.decimal message) (p.refusal message)
  /-- All that is left is taken. -/
  | rest {token : Segment} (h : p.Takes p.segment.length token.text)
    (hs : p.segment.substring p.index p.segment.length = .ok token) :
    Effect p .rest (.segment token, ⟨p.segment, p.segment.length⟩)
  /-- What is skipped is no white space, and the character behind it is. -/
  | skipToBlank {skipped : Text} {stop : Nat} (h : p.Takes stop skipped)
    (hs : ∀ c ∈ skipped, Blank.isBlank c = false)
    (hnext : ∀ c, (⟨p.segment, stop⟩ : Parser).current? = some c → Blank.isBlank c = true) :
    Effect p .skipToBlank (.done, ⟨p.segment, stop⟩)
  /-- The offset is a boundary. -/
  | moveTo {index : Nat} (h : isBoundary p.segment.text index) :
    Effect p (.moveTo index) (.done, ⟨p.segment, index⟩)
  /-- The offset is past the end. -/
  | outOfBounds {index : Nat} (h : p.segment.length < index) :
    Effect p (.moveTo index) (.misfit (.outOfBounds index p.segment.length), p)
  /-- The offset splits a character. -/
  | notCharBoundary {index : Nat} (h : index ≤ p.segment.length)
    (hb : ¬ isBoundary p.segment.text index) :
    Effect p (.moveTo index) (.misfit (.notCharBoundary index), p)
  /-- Moving forward is moving to the sum, or to the greatest offset where that is less. -/
  | advance {amount : Nat} {result : Outcome × Parser}
    (h : Effect p (.moveTo (saturatingAdd p.index amount)) result) :
    Effect p (.advance amount) result
  /-- Failing always does. -/
  | fail {message : Parser → Text} : Effect p (.fail message) (p.refusal message)
  /-- An error is made, and nothing else is done. -/
  | errorHere {message : Parser → Text} :
    Effect p (.errorHere message) (.report ⟨message p, p.here, none⟩, p)

/-- A certain character is taken if it comes next, and otherwise nothing is. -/
theorem literal_effect (hp : p.Placed) (c : Char) (message : Parser → Text) :
    p.Effect (.literal c message) (p.perform (.literal c message)) := by
  by_cases h : p.current? = some c
  · rw [perform_literal_of_eq h]
    exact .literal (hp.takes_char h)
  · rw [perform_literal_of_ne h]
    exact .noLiteral fun stop htakes => h (htakes.current?_eq hp)

/-- Any character is taken unless the parser is at the end. -/
theorem anyChar_effect (hp : p.Placed) (message : Parser → Text) :
    p.Effect (.anyChar message) (p.perform (.anyChar message)) := by
  cases h : p.current? with
  | none =>
    rw [perform_anyChar_of_none h]
    exact .noChar (hp.current?_eq_none_iff.mp h)
  | some c =>
    rw [perform_anyChar_of_some h]
    exact .anyChar (hp.takes_char h)

/-- Where no token is found, the pattern has no match at the start of the text that is left. -/
theorem Placed.not_matches (hp : p.Placed) {pattern : Pattern} (h : p.take? pattern = none)
    (stop : Nat) : ¬ pattern.Matches p.remaining ⟨0, stop⟩ := by
  intro hmatch
  have hsome := hp.exists_take? hmatch
  rw [h] at hsome
  exact Bool.noConfusion hsome

/-- A token is what its pattern matches at the parser's place, or nothing is taken. -/
theorem token_effect (hp : p.Placed) (pattern : Pattern) (message : Parser → Text) :
    p.Effect (.token pattern message) (p.perform (.token pattern message)) := by
  cases h : p.take? pattern with
  | none =>
    rw [perform_token_of_none h]
    exact .noToken (hp.not_matches h)
  | some found =>
    obtain ⟨token, p'⟩ := found
    rw [perform_token_of_some h]
    obtain ⟨stop, htoken, rfl⟩ := hp.takesToken h
    exact .token htoken

/-- A numeral is taken as a token first. Where no number can hold it, the parser is put back. -/
theorem decimal_effect (hp : p.Placed) (message : Parser → Text) :
    p.Effect (.decimal message) (p.perform (.decimal message)) := by
  cases h : p.take? Token.numeral with
  | none =>
    rw [perform_decimal_of_none h]
    exact .noNumeral (hp.not_matches h)
  | some found =>
    obtain ⟨token, p'⟩ := found
    obtain ⟨stop, htoken, hp'⟩ := hp.takesToken h
    cases hd : Decimal.ofNumeral (.ofText token.text) with
    | ok d =>
      rw [perform_decimal_of_ok h hd, hp']
      exact .decimal htoken hd
    | error e =>
      rw [perform_decimal_of_error h hd]
      exact .noDecimal htoken hd

/-- The rest is all that is left, and the parser comes to the end. -/
theorem rest_effect (hp : p.Placed) : p.Effect .rest (p.perform .rest) := by
  have hall : p.remaining = p.remaining ++ [] := (List.append_nil _).symm
  simp only [perform, hp.rest_eq]
  refine .rest ?_ (Segment.substring_eq_ok_iff.mpr ⟨hp.inside, ?_⟩)
  · rw [hp.text_ahead hall, hp.length_eq]
    exact hp.takes hall
  · rw [ahead, ← hp.length_eq]

/-- What is skipped goes as far as the next blank, and nothing is taken up. -/
theorem skipToBlank_effect (hp : p.Placed) : p.Effect .skipToBlank (p.perform .skipToBlank) := by
  refine .skipToBlank (hp.takes_run (!Blank.isBlank ·)) ?_ ?_
  · intro c hc
    have hall := List.all_eq_true.mp List.all_takeWhile c hc
    simpa using hall
  · intro c hc
    simpa using hp.next_behind_run hc

/-- A move to a boundary takes nothing, and any other is refused. -/
theorem moveTo_effect (index : Nat) : p.Effect (.moveTo index) (p.perform (.moveTo index)) := by
  simp only [perform, moveTo]
  split_ifs with hlen hb
  · exact .outOfBounds hlen
  · exact .moveTo hb
  · exact .notCharBoundary (Nat.le_of_not_lt hlen) hb

/-- What comes of a call is one of the effects that it can have. -/
theorem perform_effect (hp : p.Placed) (op : Op) : p.Effect op (p.perform op) := by
  cases op with
  | literal c message => exact literal_effect hp c message
  | anyChar message => exact anyChar_effect hp message
  | token pattern message => exact token_effect hp pattern message
  | blanks message => exact .blanks (token_effect hp Token.blanks message)
  | word message => exact .word (token_effect hp Token.word message)
  | decimal message => exact decimal_effect hp message
  | rest => exact rest_effect hp
  | skipToBlank => exact skipToBlank_effect hp
  | moveTo index => exact moveTo_effect index
  | advance amount => exact .advance (moveTo_effect (saturatingAdd p.index amount))
  | fail message => exact .fail
  | errorHere message => exact .errorHere

/-! ## Any calls -/

/-- Whether the call failed. -/
def Outcome.isError : Outcome → Bool
  | failed _ | misfit _ => true
  | done | char _ | segment _ | decimal _ | report _ => false

/-- A call that fails leaves the parser as it is. -/
theorem Effect.eq_of_isError {op : Op} {result : Outcome × Parser} (h : p.Effect op result)
    (herror : result.1.isError = true) : result.2 = p := by
  induction h with
  | noLiteral | noChar | noToken | noDecimal | noNumeral | outOfBounds | notCharBoundary | fail =>
    rfl
  | blanks _ ih | word _ ih | advance _ ih => exact ih herror
  | literal | anyChar | token | decimal | rest | skipToBlank | moveTo | errorHere =>
    exact Bool.noConfusion herror

/-- After any calls a parser reads the same segment and stands at a boundary of it. The next call
takes what comes of it, as `Effect` says, and leaves the parser as it is if it fails. -/
theorem run_conserves {d : Document} {s : Segment} (hs : Segment.Reachable d s) (ops : List Op)
    (op : Op) (hp : (ofSegment s).run ops = p) :
    p.segment = s ∧ p.index ≤ s.length ∧ isBoundary s.text p.index = true ∧
      p.Effect op (p.perform op) ∧ ((p.perform op).1.isError = true → (p.perform op).2 = p) := by
  obtain ⟨hplaced, hsegment⟩ := run_placed (ofSegment_placed hs.wellPlaced.1) ops
  rw [hp] at hplaced hsegment
  obtain rfl : p.segment = s := hsegment
  have heffect := perform_effect hplaced op
  exact ⟨rfl, hplaced.inside.le, hplaced.index, heffect, heffect.eq_of_isError⟩

/-- A numeral that no number can hold is found, and is not taken. -/
theorem conserves_great_exponent :
    let p := (ofSegment (.ofText "x1e9999999999999999999".toList [] ⟨0, 0⟩)).run [.advance 1]
    p.index = 1 ∧ (p.perform (.decimal fun _ => [])).2 = p := by
  refine ⟨rfl, ?_⟩
  exact (run_conserves (.root (d := ⟨"x1e9999999999999999999".toList, [], ⟨0, 0⟩⟩)) [.advance 1]
    (.decimal fun _ => []) rfl).2.2.2.2 (by decide)

end SourceText.Parser
