import SourceText.Proofs.Consumption
import SourceText.Proofs.Coordinates

/-!
# Where parsers fail, and what they say

A primitive decides what comes of it before it asks for a message. If it succeeds, it is a value
that the message has no part in (`Primitive.Succeeds`). If it fails, the error is what the message
makes of it, run once, on the parser as it stands before and after (`Primitive.FailsAt`). Both are
said of messages in any lawful monad, so of those that count how often they are run.

The error is about the character at the parser's place or, at the end, about the place just past the
last character (`PointsAt`); only a numeral that no number can hold is reported as a whole. A part
with characters starts where its document says that they are (`locatedAt_derive`), and an error
shows that position counted from one. The greatest number of a line has no next one, and is shown as
it is. No position of a segment that a machine comes to is on a line beyond that, which is said in
`Proofs.Machine.Failure`.
-/

namespace SourceText

open Text (byteLength isBoundary)

/-! ## Locations -/

namespace Segment

/-- The segment is shown where the document says that the character at offset `n` is, counted from
one. The greatest number of a line stays as it is. -/
def LocatedAt (d : Document) (n : Nat) (t : Segment) : Prop :=
  ∃ q, d.positionAt? n = some q ∧ t.location = ⟨d.source, saturatingAdd q.line 1, q.col + 1⟩

variable {s : Segment} {before after : Text}

/-- Columns that fit have a next one. -/
theorem Aligned.saturatingAdd_col (h : s.Aligned before after)
    (hcols : s.document.ColumnsFit) : saturatingAdd s.start.col 1 = s.start.col + 1 := by
  have hcol := h.col_le hcols
  have hmax : maxSignedCol + 1 ≤ maxCount := by decide
  unfold saturatingAdd
  omega

/-- A part that has characters is shown where the document says that the first of them is. -/
theorem Aligned.locatedAt_derive (h : s.Aligned before after) (hcols : s.document.ColumnsFit)
    {l m r : Text} (htext : s.text = l ++ m ++ r) (hm : m ≠ []) :
    LocatedAt s.document (s.startOffset + byteLength l)
      (s.derive (byteLength l) (byteLength (l ++ m))) := by
  have hpart := h.deriveAt hcols htext (.inl rfl)
  have hne : (s.derive (byteLength l) (byteLength (l ++ m))).text ≠ [] := by
    rwa [derive, text_deriveAt h.lies htext]
  refine ⟨_, hpart.positionAt?_start hne, ?_⟩
  rw [← hpart.saturatingAdd_col hcols]
  rfl

end Segment

namespace Parser

open Segment (LocatedAt)

/-! ## Messages that are actions -/

/-- A primitive that can fail. -/
inductive Primitive where
  /-- Takes a certain character. -/
  | literal (c : Char)
  /-- Takes any character. -/
  | anyChar
  /-- Takes the text that a pattern matches here. -/
  | token (pattern : Pattern)
  /-- Takes a run of ASCII blanks. -/
  | blanks
  /-- Takes a run of characters other than ASCII blanks. -/
  | word
  /-- Takes a decimal numeral. -/
  | decimal
  /-- Fails here. -/
  | fail
  deriving DecidableEq, Repr

/-- What an answer comes to. -/
def Outcome.ofResult {α : Type} (value : α → Outcome) (answer : Answer α) : Outcome × Parser :=
  (.ofAnswer value answer.1, answer.2)

namespace Primitive

/-- Calls a primitive on a parser. -/
def call {m : Type → Type} [Monad m] (p : Parser) (message : Parser → m Text) :
    Primitive → m (Outcome × Parser)
  | literal c => Outcome.ofResult (fun _ => .done) <$> p.literal c message
  | anyChar => Outcome.ofResult .char <$> p.anyChar message
  | token pattern => Outcome.ofResult .segment <$> p.token pattern message
  | blanks => Outcome.ofResult .segment <$> p.blanks message
  | word => Outcome.ofResult .segment <$> p.word message
  | decimal => Outcome.ofResult .decimal <$> p.decimal message
  | fail => Outcome.ofResult (fun _ => .done) <$> (p.fail message : m (Answer Unit))

/-- The primitive succeeds, and does not run the message. -/
def Succeeds (prim : Primitive) (p : Parser) : Prop :=
  ∃ o p', o.isError = false ∧ ∀ (m : Type → Type) [Monad m] [LawfulMonad m]
    (message : Parser → m Text), prim.call p message = pure (o, p')

/-- The primitive fails with an error about a segment. It runs the message once, on the parser as it
is, and leaves the parser so. -/
def FailsAt (prim : Primitive) (p : Parser) (t : Segment) (cause : Option Text) : Prop :=
  ∀ (m : Type → Type) [Monad m] [LawfulMonad m] (message : Parser → m Text),
    prim.call p message = (fun text => (.failed ⟨text, t, cause⟩, p)) <$> message p

variable {p : Parser}

/-- Failing runs the message on the parser as it is. -/
theorem ofResult_fail {m : Type → Type} [Monad m] [LawfulMonad m] {α : Type} (value : α → Outcome)
    (message : Parser → m Text) :
    Outcome.ofResult value <$> p.fail message =
      (fun text => (.failed ⟨text, p.here, none⟩, p)) <$> message p := by
  simp [Parser.fail, errorHere, Outcome.ofResult, Outcome.ofAnswer]

/-- A primitive that answers without a message succeeds without asking for one, in whatever effects
messages may have. -/
theorem succeeds_of_pure {prim : Primitive} {α : Type} (value : α → Outcome) (a : α) (p' : Parser)
    (hvalue : (value a).isError = false)
    (h : ∀ (m : Type → Type) [Monad m] [LawfulMonad m] (message : Parser → m Text),
      prim.call p message = Outcome.ofResult value <$> pure (.ok a, p')) : prim.Succeeds p :=
  ⟨value a, p', hvalue, fun m _ _ message => by rw [h, map_pure]; rfl⟩

/-- A primitive that fails with a message asks for it once, from the parser as it is. -/
theorem failsAt_of_fail {prim : Primitive} {α : Type} (value : α → Outcome)
    (h : ∀ (m : Type → Type) [Monad m] [LawfulMonad m] (message : Parser → m Text),
      prim.call p message = Outcome.ofResult value <$> p.fail message) :
    prim.FailsAt p p.here none :=
  fun m _ _ message => by rw [h, ofResult_fail]

/-- A primitive succeeds, or fails here, or fails at a numeral. -/
inductive Settled (p : Parser) (prim : Primitive) : Prop where
  /-- It succeeds. -/
  | succeeds (h : prim.Succeeds p)
  /-- It fails at the parser's place. -/
  | failsHere (h : prim.FailsAt p p.here none)
  /-- It fails at a numeral that no number can hold. -/
  | failsAtNumeral {token : Segment} {p' : Parser} {e : DecimalError} (hprim : prim = .decimal)
    (htake : p.take? Token.numeral = some (token, p'))
    (he : Decimal.ofNumeral (.ofText token.text) = .error e)
    (h : prim.FailsAt p token (some e.message))

/-- A token is taken, or there is none here. -/
theorem settled_token {prim : Primitive} (pattern : Pattern)
    (h : ∀ (m : Type → Type) [Monad m] (message : Parser → m Text),
      prim.call p message = Outcome.ofResult .segment <$> p.token pattern message) :
    prim.Settled p := by
  cases htake : p.take? pattern with
  | none =>
    refine .failsHere (failsAt_of_fail .segment fun m _ _ message => ?_)
    simp only [h, Parser.token, htake]
  | some found =>
    refine .succeeds (succeeds_of_pure .segment found.1 found.2 rfl fun m _ _ message => ?_)
    simp only [h, Parser.token, htake]

/-- A certain character is taken, or missed where the parser stands. -/
theorem settled_literal (p : Parser) (c : Char) : (literal c).Settled p := by
  by_cases h : p.current? = some c
  · refine .succeeds (succeeds_of_pure (fun _ => .done) () ⟨p.segment, p.index + c.utf8Size⟩ rfl
      fun m _ _ message => ?_)
    simp only [call, Parser.literal, if_pos h]
  · refine .failsHere (failsAt_of_fail (fun _ : Unit => .done) fun m _ _ message => ?_)
    simp only [call, Parser.literal, if_neg h]

/-- Any character is taken, or missed at the end. -/
theorem settled_anyChar (p : Parser) : anyChar.Settled p := by
  cases h : p.current? with
  | none =>
    refine .failsHere (failsAt_of_fail .char fun m _ _ message => ?_)
    simp only [call, Parser.anyChar, h]
  | some c =>
    refine .succeeds (succeeds_of_pure .char c ⟨p.segment, p.index + c.utf8Size⟩ rfl
      fun m _ _ message => ?_)
    simp only [call, Parser.anyChar, h]

/-- A numeral is taken, or missed where the parser stands, or no number can hold it. -/
theorem settled_decimal (p : Parser) : decimal.Settled p := by
  cases htake : p.take? Token.numeral with
  | none =>
    refine .failsHere (failsAt_of_fail .decimal fun m _ _ message => ?_)
    simp only [call, Parser.decimal, htake]
  | some found =>
    obtain ⟨token, p'⟩ := found
    cases hd : Decimal.ofNumeral (.ofText token.text) with
    | ok d =>
      refine .succeeds (succeeds_of_pure .decimal d p' rfl fun m _ _ message => ?_)
      simp only [call, Parser.decimal, htake, hd]
    | error e =>
      -- The parser has been moved past the numeral, and the message sees it moved back.
      refine .failsAtNumeral rfl htake hd fun m _ _ message => ?_
      simp only [call, Parser.decimal, htake, hd]
      simp [Outcome.ofResult, Outcome.ofAnswer]

/-- Every primitive is settled before its message is asked for. -/
theorem settled (p : Parser) (prim : Primitive) : prim.Settled p := by
  cases prim with
  | literal c => exact settled_literal p c
  | anyChar => exact settled_anyChar p
  | token pattern => exact settled_token pattern fun m _ message => rfl
  | blanks => exact settled_token Token.blanks fun m _ message => rfl
  | word => exact settled_token Token.word fun m _ message => rfl
  | decimal => exact settled_decimal p
  | fail => exact .failsHere (failsAt_of_fail (fun _ : Unit => .done) fun m _ _ message => rfl)

end Primitive

/-! ## Places -/

/-- Where an error at offset `i` of the segment `s` is. -/
structure PointsAt (d : Document) (s : Segment) (i : Nat) (t : Segment) : Prop where
  /-- Before the end it is the character there, shown where the document says that it is. -/
  char : i < s.length → ∃ c, s.substring i (i + c.utf8Size) = .ok t ∧ t.text = [c] ∧
    LocatedAt d (s.startOffset + i) t
  /-- At the end it is empty, and one column past the last character if there is one. -/
  tail : i = s.length → s.substring i i = .ok t ∧ t.text = [] ∧
    (s.text = [] → t.start = s.start) ∧
    ∀ l c, s.text = l ++ [c] → ∃ q, d.positionAt? (s.startOffset + byteLength l) = some q ∧
      t.start = ⟨q.line, q.col + 1⟩

variable {p : Parser} {before after : Text}

/-- A character at the parser's place is where the document says that it is. -/
theorem pointsAt_char (hp : p.Placed) (h : p.segment.Aligned before after)
    (hcols : p.segment.document.ColumnsFit) {c : Char} (hc : p.current? = some c) :
    PointsAt p.segment.document p.segment p.index
      (p.segment.derive p.index (p.index + c.utf8Size)) where
  char := by
    intro _
    obtain ⟨l, r, htext, hl, hstop⟩ := Text.slice?_eq_some_iff.mp (hp.takes_char hc).slice
    have hinside := Span.inside_of_cut l [c] r
    have htoken := Segment.text_deriveAt h.lies htext (p.segment.positionAt (byteLength l))
    have hlocated := h.locatedAt_derive hcols htext (List.cons_ne_nil c [])
    rw [← htext, ← hp.segment.length_eq, hl, hstop] at hinside
    rw [hl, hstop] at htoken hlocated
    exact ⟨c, Segment.substring_eq_ok_iff.mpr ⟨hinside, rfl⟩, htoken, hlocated⟩
  tail := by
    intro hlen
    rw [hp.current?_eq_none_iff.mpr hlen] at hc
    cases hc

/-- The end is just past the last character, or at the start of a segment that has none. -/
theorem pointsAt_tail (hp : p.Placed) (h : p.segment.Aligned before after)
    (hcols : p.segment.document.ColumnsFit) (hlen : p.index = p.segment.length) :
    PointsAt p.segment.document p.segment p.index p.segment.tail where
  char := fun hlt => absurd hlen (Nat.ne_of_lt hlt)
  tail := by
    intro _
    have hinside := hp.inside
    have htext : p.segment.text = p.segment.text ++ [] ++ [] := by simp
    have htoken := Segment.text_deriveAt h.lies htext (p.segment.positionAt p.segment.length)
    rw [List.append_nil, ← hp.segment.length_eq] at htoken
    rw [hlen] at hinside ⊢
    refine ⟨Segment.substring_eq_ok_iff.mpr ⟨hinside, rfl⟩, htoken, ?_, ?_⟩
    · -- The walk has nothing to go past.
      intro hnil
      have hzero : p.segment.length = byteLength [] := by rw [hp.segment.length_eq, hnil]
      have hwalk := Segment.positionAt_eq_walkTo hp.segment (l := []) rfl (.inr hnil)
      rw [Segment.walkTo_eq (l := []) rfl, ← hzero] at hwalk
      exact hwalk
    · intro l c hconcat
      have hend := Segment.positionAt_eq_pastEnd hp.segment (by simp [hconcat])
      rw [← hp.segment.length_eq] at hend
      obtain ⟨q, hq, hstop⟩ := h.positionAt?_stop hcols hconcat
      refine ⟨q, hq, hend.trans ?_⟩
      rw [Segment.pastEnd, hstop]
      rfl

/-- An error at the parser's place is where the document says that the place is. -/
theorem pointsAt_here (hp : p.Placed) (h : p.segment.Aligned before after)
    (hcols : p.segment.document.ColumnsFit) :
    PointsAt p.segment.document p.segment p.index p.here := by
  rcases here_eq hp with ⟨c, hc, hhere⟩ | ⟨hlen, hhere⟩
  · rw [hhere]
    exact pointsAt_char hp h hcols hc
  · rw [hhere]
    exact pointsAt_tail hp h hcols hlen

/-- A numeral that no number can hold has characters. -/
theorem ne_nil_of_ofNumeral_eq_error {text : Text} {e : DecimalError}
    (h : Decimal.ofNumeral (.ofText text) = .error e) : text ≠ [] := by
  rintro rfl
  cases (show Decimal.ofNumeral (.ofText []) = .ok ⟨0, 0⟩ from rfl).symm.trans h

/-- A token that has characters is where the document says that the first of them is. -/
theorem TakesToken.locatedAt {pattern : Pattern} {token : Segment} {stop : Nat}
    (htoken : p.TakesToken pattern stop token) (h : p.segment.Aligned before after)
    (hcols : p.segment.document.ColumnsFit) (hne : token.text ≠ []) :
    LocatedAt p.segment.document (p.segment.startOffset + p.index) token := by
  obtain ⟨l, r, htext, hl, hstop⟩ := Text.slice?_eq_some_iff.mp htoken.takes.slice
  have hlocated := h.locatedAt_derive hcols htext hne
  rw [hl, hstop, (Segment.substring_eq_ok_iff.mp htoken.substring).2] at hlocated
  exact hlocated

/-- Something is missing exactly at the end, and what is not missing is invalid. -/
theorem missingOrInvalid_eq {m : Type → Type} [Monad m] (hp : p.Placed) (what : Text) :
    (missingOrInvalid what p : m Text) =
      pure ((if p.index = p.segment.length then "missing " else "invalid ").toList ++ what) := by
  have hle : p.index ≤ p.segment.length := hp.inside.le
  have hend : p.atEnd = true ↔ p.index = p.segment.length := by
    rw [atEnd, decide_eq_true_iff]
    omega
  simp only [missingOrInvalid, hend]
  split_ifs <;> rfl

/-- A primitive of a parser over `s` succeeds without asking for a message, or fails and asks for it
once, from the parser as it is. The error points at the parser's place, or is about all of a numeral
there that no number can hold. -/
theorem Primitive.call_points {d : Document} {s : Segment} (hs : Segment.Reachable d s)
    (hcols : d.ColumnsFit) (ops : List Op) (hp : (ofSegment s).run ops = p) (prim : Primitive)
    (what : Text) :
    (prim.Succeeds p ∨
      (∃ t, PointsAt d s p.index t ∧ prim.FailsAt p t none) ∨
      prim = .decimal ∧ ∃ stop token e, p.take? Token.numeral = some (token, ⟨s, stop⟩) ∧
        s.substring p.index stop = .ok token ∧
        Decimal.ofNumeral (.ofText token.text) = .error e ∧
        LocatedAt d (s.startOffset + p.index) token ∧ prim.FailsAt p token (some e.message)) ∧
    ∀ (m : Type → Type) [Monad m], (missingOrInvalid what p : m Text) =
      pure ((if p.index = s.length then "missing " else "invalid ").toList ++ what) := by
  obtain ⟨hplaced, hsegment⟩ := run_placed (ofSegment_placed hs.wellPlaced.1) ops
  rw [hp] at hplaced hsegment
  obtain rfl : p.segment = s := hsegment
  obtain ⟨rfl, before, after, h⟩ := hs.aligned hcols
  refine ⟨?_, fun m _ => missingOrInvalid_eq hplaced what⟩
  rcases prim.settled p with hsucceeds | hfails | ⟨hprim, htake, he, hfails⟩
  · exact .inl hsucceeds
  · exact .inr (.inl ⟨p.here, pointsAt_here hplaced h hcols, hfails⟩)
  · obtain ⟨stop, htoken, rfl⟩ := hplaced.takesToken htake
    have hlocated := htoken.locatedAt h hcols (ne_nil_of_ofNumeral_eq_error he)
    exact .inr (.inr ⟨hprim, stop, _, _, htake, htoken.substring, he, hlocated, hfails⟩)

/-- A document with one line, which has the greatest number. -/
def greatestLine : Document := ⟨['x'], [], ⟨maxCount, 0⟩⟩

/-- Counted from one, the greatest number of a line would be greater. It stays as it is. -/
theorem location_greatest_line :
    Segment.Reachable greatestLine (.ofDocument greatestLine) ∧ greatestLine.ColumnsFit ∧
      ∃ e q, (ofSegment (.ofDocument greatestLine)).perform (.fail fun _ => []) =
          (.failed e, ofSegment (.ofDocument greatestLine)) ∧
        greatestLine.positionAt? 0 = some q ∧
        e.location ≠ ⟨greatestLine.source, q.line + 1, q.col + 1⟩ :=
  ⟨.root, by decide, _, _, rfl, rfl, by decide⟩

end Parser

end SourceText
