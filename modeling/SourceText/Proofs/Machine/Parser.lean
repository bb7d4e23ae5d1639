import SourceText.Proofs.Machine.Matcher
import SourceText.Proofs.Parser

/-!
# Parsers on the machine

A parser stands at a boundary of its segment, so from there to the end there is always a region to
look for a token in, a rest to take, and a character or an end to report (`Parser.Placed`). A match
that the parser's matcher is looking at is a group of its own. So each call comes to what it answers
(`Machine.performParser_comesTo`), and any number of them does (`Machine.runParser_comesTo`), unless
there is a token or an error at a position to which the machine cannot count.
-/

namespace SourceText

open Text (byteLength isBoundary)

namespace Machine

/-! ## Places -/

/-- The next character. -/
def current (p : Parser) : Machine (Option Char) := do
  return (← charAt p.segment p.index).toOption

/-- Moves to an offset, forward or backward. -/
def moveTo (p : Parser) (index : Nat) : Machine (Except IndexError Parser) := do
  let length ← length p.segment
  if length < index then return .error (.outOfBounds index length)
  else if ¬ isBoundary (← text p.segment) index then return .error (.notCharBoundary index)
  else return .ok { p with index := index }

/-- Moves forward by a number of bytes. -/
def advance (p : Parser) (amount : Nat) : Machine (Except IndexError Parser) :=
  moveTo p (saturatingAdd p.index amount)

/-- Moves forward to the next white space, or to the end if there is none. -/
def skipToBlank (p : Parser) : Machine Parser := do
  let remaining ← match Text.drop? (← text p.segment) p.index with
    | some rest => pure rest
    | none => do
      fault .remaining
      pure []
  return { p with
    index := ← add p.index (byteLength (remaining.takeWhile (!Blank.isBlank ·))) }

/-- What an error at this place is about. -/
def here (p : Parser) : Machine Segment := do
  match ← charSegmentAt p.segment p.index with
  | .ok s => return s
  | .error _ => do
    fault .here
    tail p.segment

/-- Takes all that is left. -/
def rest (p : Parser) : Machine (Segment × Parser) := do
  let rest ← match ← substringFrom p.segment p.index with
    | .ok s => pure s
    | .error _ => do
      fault .rest
      tail p.segment
  return (rest, { p with index := ← length p.segment })

/-- Takes the text that a pattern matches here. -/
def take (p : Parser) (pattern : Pattern) : Machine (Option (Segment × Parser)) := do
  match ← confine (← newMatcher p.segment pattern) p.index (← length p.segment) with
  | .error _ =>
    fault .confine
    return none
  | .ok m =>
    match ← lookingAt m with
    | (false, _) => return none
    | (true, m) =>
      match ← groupAt m 0 with
      | none =>
        fault .token
        return none
      | some token => return some (token, { p with index := ← add p.index (← length token) })

variable {p : Parser}

/-- The character at the parser's place is found. -/
theorem current_eq (hs : p.segment.InMemory) : current p = pure p.current? := by
  rw [current, charAt_eq hs, pure_bind]
  rfl

/-- A move completes, refused or not. -/
theorem moveTo_eq (hs : p.segment.InMemory) (index : Nat) :
    moveTo p index = pure (p.moveTo index) := by
  unfold moveTo Parser.moveTo
  rw [length_eq hs, pure_bind, text_eq hs, pure_bind]
  split_ifs <;> rfl

/-- So does moving on by some bytes, where a sum that is too great counts as the greatest count. -/
theorem advance_eq (hs : p.segment.InMemory) (amount : Nat) :
    advance p amount = pure (p.advance amount) :=
  moveTo_eq hs _

/-- So does skipping, which adds up the bytes of what it skips. -/
theorem skipToBlank_eq (hp : p.Placed) (hs : p.segment.InMemory) :
    skipToBlank p = pure p.skipToBlank := by
  have hbytes := hs.byteLength_le
  have hcount := maxCount_eq
  obtain ⟨l, htext, hl⟩ := hp.cut
  have hdrop : Text.drop? p.segment.text p.index = some p.remaining :=
    Text.drop?_eq_some_iff.mpr ⟨l, htext, hl⟩
  have hskipped := congrArg byteLength
    (List.takeWhile_append_dropWhile (p := (!Blank.isBlank ·)) (l := p.remaining))
  have hlength := congrArg byteLength htext
  rw [Text.byteLength_append] at hskipped hlength
  rw [skipToBlank, text_eq hs, pure_bind, hdrop]
  simp only [pure_bind]
  rw [add_eq (by omega), pure_bind]
  rfl

/-- What an error here is about is found, unless the machine cannot count to it. -/
theorem here_comesTo (hp : p.Placed) (hs : p.segment.InMemory) :
    (here p).ComesTo p.segment.CharsCounted p.here := by
  obtain ⟨t, ht⟩ := Segment.exists_charSegmentAt hs.placed hp.index
  refine (charSegmentAt_comesTo hs p.index).bind ?_
  rw [Parser.here, ht]
  exact .pure _

/-- At any other offset than a boundary there is nothing to report. -/
theorem here_meets_iff (hs : p.segment.InMemory) (hchars : p.segment.CharsCounted) :
    (here p).Meets .here ↔ ¬ isBoundary p.segment.text p.index := by
  rw [here, (charSegmentAt_comesTo hs p.index).of_sure hchars, pure_bind]
  cases h : p.segment.charSegmentAt p.index with
  | error e =>
    refine iff_of_true (meets_fault _ _) fun hboundary => ?_
    obtain ⟨t, ht⟩ := Segment.exists_charSegmentAt hs.placed hboundary
    rw [h] at ht
    cases ht
  | ok t =>
    have hboundary := Segment.isBoundary_of_charSegmentAt hs.placed h
    exact iff_of_false (not_meets_pure _ _) fun hn => hn hboundary

/-- All that is left is found. -/
theorem rest_comesTo (hp : p.Placed) (hs : p.segment.InMemory) :
    (rest p).ComesTo p.segment.CharsCounted p.rest := by
  have hrest : p.segment.substringFrom p.index = .ok (p.segment.derive p.index p.segment.length) :=
    Segment.substring_eq_ok_iff.mpr ⟨hp.inside, rfl⟩
  rw [rest, Parser.rest, length_eq hs]
  refine (substringFrom_comesTo hs p.index).bind ?_
  rw [hrest]
  exact .pure _

/-- So is a token. -/
theorem take_comesTo (hp : p.Placed) (hs : p.segment.InMemory) (pattern : Pattern) :
    (take p pattern).ComesTo p.segment.CharsCounted (p.take? pattern) := by
  obtain ⟨m, hconfine, hm, hsegment, -, hregion, -⟩ := hp.confine pattern
  have hs' : m.segment.InMemory := by
    rw [hsegment]
    exact hs
  have hm' := Matcher.lookingAt_coherent hm
  unfold take Parser.take?
  rw [newMatcher_eq hs, pure_bind, length_eq hs, pure_bind,
    confine_eq (m := p.segment.matcher pattern) hs, pure_bind, hconfine]
  simp only
  rw [lookingAt_eq hm hs', pure_bind]
  rcases m.lookingAt_cases with hlook | ⟨f, -, hstart, hlook⟩
  · rw [hlook]
    exact .pure _
  · -- The match is the whole of a group, and its length leads to where it stops.
    rw [hlook] at hm' ⊢
    generalize f.shift m.haystack.2 = f at *
    have hgroup : (m.accept f).groupAt? 0 = some (m.segment.derive f.span.start f.span.stop) := rfl
    have htoken := (Segment.isCut_groupAt? hm' hgroup).isPart.inMemory hs'
    have hspan := (hm'.found f rfl).span
    have hle := hspan.le
    have hhigh : f.span.stop ≤ p.segment.length := by
      have := hspan.le_high
      rwa [show (m.accept f).region = m.region from rfl, hregion] at this
    rw [hs.placed.length_eq] at hhigh
    have hbytes := hs.byteLength_le
    have hcount := maxCount_eq
    rw [hregion] at hstart
    have hfound := groupAt_comesTo hm' hs' 0
    simp only at hfound ⊢
    rw [← hsegment]
    refine hfound.bind ?_
    simp only [hgroup, pure_bind, length_eq htoken, Matcher.group?, Option.map_some]
    rw [add_eq (by rw [Segment.length_derive]; simp only at hstart; omega), pure_bind]
    exact .pure _

/-! ## Calls -/

/-- A call that fails here stays here. -/
def refuse (p : Parser) (message : Parser → Text) : Machine (Parser.Outcome × Parser) := do
  return (.failed ⟨message p, ← here p, none⟩, p)

/-- Takes a token, or fails here. -/
def takeOrRefuse (p : Parser) (pattern : Pattern) (message : Parser → Text) :
    Machine (Parser.Outcome × Parser) := do
  match ← take p pattern with
  | some (token, p) => return (.segment token, p)
  | none => refuse p message

/-- One call on a parser, with what comes of it. -/
def performParser (p : Parser) : Parser.Op → Machine (Parser.Outcome × Parser)
  | .literal c message => do
    if (← current p) = some c then
      return (.done, { p with index := ← add p.index c.utf8Size })
    else refuse p message
  | .anyChar message => do
    match ← current p with
    | some c => return (.char c, { p with index := ← add p.index c.utf8Size })
    | none => refuse p message
  | .token pattern message => takeOrRefuse p pattern message
  | .blanks message => takeOrRefuse p Token.blanks message
  | .word message => takeOrRefuse p Token.word message
  | .decimal message => do
    match ← take p Token.numeral with
    | none => refuse p message
    | some (token, p') =>
      match Decimal.ofNumeral (.ofText (← text token)) with
      | .ok d => return (.decimal d, p')
      | .error e => return (.failed ⟨message p, token, some e.message⟩, p)
  | .rest => do
    let (rest, p) ← rest p
    return (.segment rest, p)
  | .skipToBlank => do return (.done, ← skipToBlank p)
  | .moveTo index => do
    match ← moveTo p index with
    | .ok p => return (.done, p)
    | .error e => return (.misfit e, p)
  | .advance amount => do
    match ← advance p amount with
    | .ok p => return (.done, p)
    | .error e => return (.misfit e, p)
  | .fail message => refuse p message
  | .errorHere message => do return (.report ⟨message p, ← here p, none⟩, p)

/-- Some calls on a parser, one after the other. -/
def runParser (p : Parser) (ops : List Parser.Op) : Machine Parser :=
  ops.foldlM (fun p op => do return (← performParser p op).2) p

/-- A call fails here with an error about this place, unless the machine cannot count to it. -/
theorem refuse_comesTo (hp : p.Placed) (hs : p.segment.InMemory) (message : Parser → Text) :
    (refuse p message).ComesTo p.segment.CharsCounted (p.refusal message) :=
  (here_comesTo hp hs).bind (.pure _)

/-- Behind the next character the machine can still count. -/
theorem add_utf8Size_eq (hs : p.segment.InMemory) {c : Char} (h : p.current? = some c) :
    add p.index c.utf8Size = pure (p.index + c.utf8Size) := by
  have hbytes := hs.byteLength_le
  have hcount := maxCount_eq
  have hle := Text.le_byteLength_of_isBoundary (Parser.isBoundary_of_current? h)
  exact add_eq (by omega)

/-- A token is taken, or there is a failure here. -/
theorem takeOrRefuse_comesTo (hp : p.Placed) (hs : p.segment.InMemory) (pattern : Pattern)
    (message : Parser → Text) :
    (takeOrRefuse p pattern message).ComesTo p.segment.CharsCounted
      (p.perform (.token pattern message)) := by
  refine (take_comesTo hp hs pattern).bind ?_
  cases h : p.take? pattern with
  | none =>
    rw [Parser.perform_token_of_none h]
    exact refuse_comesTo hp hs message
  | some found =>
    obtain ⟨token, p'⟩ := found
    rw [Parser.perform_token_of_some h]
    exact .pure _

/-- A call on a parser comes to what it answers, unless the machine cannot count to a part. -/
theorem performParser_comesTo (hp : p.Placed) (hs : p.segment.InMemory) (op : Parser.Op) :
    (performParser p op).ComesTo p.segment.CharsCounted (p.perform op) := by
  cases op with
  | literal c message =>
    rw [performParser, current_eq hs, pure_bind]
    by_cases h : p.current? = some c
    · rw [if_pos h, add_utf8Size_eq hs h, pure_bind, Parser.perform_literal_of_eq h]
      exact .pure _
    · rw [if_neg h, Parser.perform_literal_of_ne h]
      exact refuse_comesTo hp hs message
  | anyChar message =>
    rw [performParser, current_eq hs, pure_bind]
    cases h : p.current? with
    | none =>
      rw [Parser.perform_anyChar_of_none h]
      exact refuse_comesTo hp hs message
    | some c =>
      simp only [add_utf8Size_eq hs h, pure_bind]
      rw [Parser.perform_anyChar_of_some h]
      exact .pure _
  | token pattern message => exact takeOrRefuse_comesTo hp hs pattern message
  | blanks message => exact takeOrRefuse_comesTo hp hs Token.blanks message
  | word message => exact takeOrRefuse_comesTo hp hs Token.word message
  | decimal message =>
    -- The numeral is taken first, and what number it is read as comes to no new count.
    refine (take_comesTo hp hs Token.numeral).bind ?_
    cases h : p.take? Token.numeral with
    | none =>
      rw [Parser.perform_decimal_of_none h]
      exact refuse_comesTo hp hs message
    | some found =>
      obtain ⟨token, p'⟩ := found
      obtain ⟨stop, hinside, rfl, -⟩ := Parser.take?_eq_some hp h
      have htoken := (Segment.isCut_derive hinside).isPart.inMemory hs
      simp only
      rw [text_eq htoken, pure_bind]
      cases hd : Decimal.ofNumeral (.ofText (p.segment.derive p.index stop).text) with
      | ok d =>
        rw [Parser.perform_decimal_of_ok h hd]
        exact .pure _
      | error e =>
        rw [Parser.perform_decimal_of_error h hd]
        exact .pure _
  | rest => exact (rest_comesTo hp hs).bind (.pure _)
  | skipToBlank =>
    rw [performParser, skipToBlank_eq hp hs, pure_bind]
    exact .pure _
  | moveTo index =>
    rw [performParser, moveTo_eq hs, pure_bind, Parser.perform]
    cases p.moveTo index <;> exact .pure _
  | advance amount =>
    rw [performParser, advance_eq hs, pure_bind, Parser.perform]
    cases p.advance amount <;> exact .pure _
  | fail message => exact refuse_comesTo hp hs message
  | errorHere message => exact (here_comesTo hp hs).bind (.pure _)

/-- Any calls come to the parser that they lead to. -/
theorem runParser_comesTo (hp : p.Placed) (hs : p.segment.InMemory) (ops : List Parser.Op) :
    (runParser p ops).ComesTo p.segment.CharsCounted (p.run ops) := by
  induction ops generalizing p with
  | nil => exact .pure _
  | cons op ops ih =>
    have hreads := Parser.perform_reads hp op
    have hrest := ih (hreads.placed hp) (by rw [hreads.segment]; exact hs)
    rw [hreads.segment] at hrest
    rw [runParser, List.foldlM_cons]
    exact ((performParser_comesTo hp hs op).bind (.pure (p.perform op).2)).bind hrest

end Machine

end SourceText
