import Mathlib.Data.List.Chain
import Mathlib.Data.List.TakeWhile
import SourceText.Proofs.Tokens

/-!
# Words and the blanks between them

A character is one of the six blanks of ASCII or it is not (`Token.Kind.ofChar`), and the two
patterns for blanks and for words take texts of the one kind and of the other (`Kind.mem_chars`,
`Kind.takes_pattern`). So at every place of a text a run of one kind begins and is taken as far as
it goes (`Placed.takesRun`), and the call for the other kind fails (`Placed.refuses`).

Calls for the one and the other in turn then take a text apart from end to end
(`Placed.alternate_takesApart`). It does not matter which of the two is called first: a call that
fails takes nothing, and the next is for the kind that the text begins with.
-/

namespace SourceText

open Text (byteLength)

/-! ## Two kinds of characters -/

namespace Token

open Pattern

/-- What a character or a run of characters is. -/
inductive Kind where
  /-- Blanks of ASCII. -/
  | blanks
  /-- Anything else. -/
  | word
  deriving DecidableEq, Repr

/-- The characters that are blanks in ASCII. -/
def asciiBlanks : Text := ['\t', '\n', '\x0B', '\x0C', '\r', ' ']

namespace Kind

/-- What a character is. -/
def ofChar (c : Char) : Kind := if c ∈ asciiBlanks then blanks else word

/-- What comes next to a run. -/
def other : Kind → Kind
  | blanks => word
  | word => blanks

/-- The characters of a kind. -/
def chars : Kind → CharSet
  | blanks => blank
  | word => nonblank

/-- The pattern for a run of a kind. -/
def pattern : Kind → Pattern
  | blanks => Token.blanks
  | word => Token.word

/-- The call for a run of a kind. -/
def op (message : Parser → Text) : Kind → Parser.Op
  | blanks => .blanks message
  | word => .word message

/-- The run of a kind at the start of a text. -/
def run (k : Kind) (text : Text) : Text := text.takeWhile (ofChar · == k)

variable {k : Kind}

/-- There are two kinds. -/
theorem eq_other_iff {k' : Kind} : k' = k.other ↔ k' ≠ k := by
  cases k <;> cases k' <;> decide

end Kind

/-- The blanks of ASCII have two ranges of codes. -/
theorem mem_asciiBlanks_iff {c : Char} :
    c ∈ asciiBlanks ↔ (0x09 ≤ c.toNat ∧ c.toNat ≤ 0x0D) ∨ c.toNat = 0x20 := by
  simp only [asciiBlanks, List.mem_cons, List.not_mem_nil, or_false, ← Char.toNat_inj]
  have h : '\t'.toNat = 9 ∧ '\n'.toNat = 10 ∧ '\x0B'.toNat = 11 ∧ '\x0C'.toNat = 12 ∧
      '\r'.toNat = 13 ∧ ' '.toNat = 32 := by decide
  omega

/-- The ASCII blanks are of the one kind. -/
theorem Kind.ofChar_eq_blanks {c : Char} : ofChar c = blanks ↔ c ∈ asciiBlanks := by
  simp [ofChar]

/-- All other characters are of the other kind. -/
theorem Kind.ofChar_eq_word {c : Char} : ofChar c = word ↔ c ∉ asciiBlanks := by
  simp [ofChar]

/-- The two sets of characters are those of the two kinds: each character is in one of them and not
in the other. -/
theorem Kind.mem_chars {k : Kind} {c : Char} : k.chars.mem c = true ↔ ofChar c = k := by
  have hc := CharSet.toNat_le c
  cases k with
  | blanks =>
    rw [ofChar_eq_blanks, mem_asciiBlanks_iff]
    simp only [chars, blank, CharSet.mem, CharSet.holds, Bool.and_eq_true, Bool.or_eq_true,
      decide_eq_true_eq, Bool.false_eq_true, or_false]
    omega
  | word =>
    rw [ofChar_eq_word, mem_asciiBlanks_iff]
    simp only [chars, nonblank, CharSet.mem, CharSet.holds, Bool.and_eq_true, Bool.or_eq_true,
      decide_eq_true_eq, Bool.false_eq_true, or_false]
    omega

/-! ## Their patterns -/

namespace Kind

variable {k : Kind} {m r : Text}

/-- The pattern for a kind takes texts of that kind that are not empty. -/
theorem takes_pattern :
    k.pattern.node.takes [] m r ↔ m ≠ [] ∧ ∀ c ∈ m, ofChar c = k := by
  have hnode : k.pattern.node = .seq (.assertion .textStart) (oneOrMore k.chars) := by
    cases k <;> rfl
  rw [hnode]
  simp only [← mem_chars]
  constructor
  · rintro ⟨_, _, rfl, ⟨rfl, -⟩, h⟩
    exact takes_oneOrMore.mp h
  · intro h
    exact ⟨[], m, rfl, ⟨rfl, rfl⟩, takes_oneOrMore.mpr h⟩

/-- The code that a search for a run of a kind runs. -/
theorem code_pattern :
    k.pattern.code =
      .seq (.assertion .textStart) (.seq (.set k.chars) (.loop 0 (.set k.chars) true)) := by
  cases k <;> rfl

/-- Runs are looked for at the parser's place only. -/
theorem anchored_pattern : k.pattern.code.Anchored := ⟨_, code_pattern⟩

/-- Nothing comes behind a run, so that the run goes on as long as it can. -/
theorem eager_pattern : k.pattern.code.Eager [] := by
  rw [code_pattern]
  simp [Code.Eager, Code.nullable, Code.begins, beginsAll]

/-! ## Runs -/

/-- The characters of a run are of its kind. -/
theorem ofChar_of_mem_run {c : Char} {text : Text} (h : c ∈ k.run text) : ofChar c = k := by
  unfold run at h
  simpa using List.mem_takeWhile_imp h

/-- There is a run where a character of the kind comes first. -/
theorem run_ne_nil {c : Char} {text : Text} (h : ofChar c = k) : k.run (c :: text) ≠ [] := by
  simp [run, h]

/-- There is none in front of another character. -/
theorem run_eq_nil {c : Char} {text : Text} (h : ofChar c ≠ k) : k.run (c :: text) = [] := by
  simp [run, h]

/-- What is of the kind belongs to the run. -/
theorem run_append (hm : ∀ c ∈ m, ofChar c = k) : k.run (m ++ r) = m ++ k.run r :=
  List.takeWhile_append_of_pos fun c hc => beq_iff_eq.mpr (hm c hc)

/-- Nothing of the kind goes on behind the run. -/
theorem length_le_run (hm : ∀ c ∈ m, ofChar c = k) : m.length ≤ (k.run (m ++ r)).length := by
  rw [run_append hm, List.length_append]
  exact Nat.le_add_right _ _

end Kind

end Token

namespace Parser

open Token (Kind)

variable {p : Parser} {k : Kind}

/-! ## One call -/

/-- A token is a run of one kind that goes from the parser's place as far as it can. -/
structure TakesRun (p : Parser) (k : Kind) (token : Segment) (stop : Nat) : Prop where
  /-- Some text is taken. -/
  lt : p.index < stop
  /-- It is the token's, -/
  takes : p.Takes stop token.text
  /-- and the token is that part of the segment. -/
  substring : p.segment.substring p.index stop = .ok token
  /-- The characters are of the kind. -/
  kind : ∀ c ∈ token.text, Kind.ofChar c = k
  /-- The character behind them, if there is one, is of the other. -/
  next : ∀ c, (⟨p.segment, stop⟩ : Parser).current? = some c → Kind.ofChar c = k.other

/-- What is taken is never empty. -/
theorem TakesRun.ne_nil {token : Segment} {stop : Nat} (h : p.TakesRun k token stop) :
    token.text ≠ [] := by
  intro hnil
  have hlt := h.lt
  obtain ⟨-, -, hstop⟩ := h.takes.remaining_eq
  rw [hstop, hnil] at hlt
  exact Nat.lt_irrefl _ hlt

/-- A call for a run is one for the token of its pattern. -/
theorem perform_op {message : Parser → Text} :
    p.perform (k.op message) = p.perform (.token k.pattern message) := by
  cases k <;> rfl

/-- The run of the kind of the next character is taken. -/
theorem Placed.takesRun (hp : p.Placed) {c : Char} (hc : p.current? = some c) :
    ∃ token stop, p.TakesRun (Kind.ofChar c) token stop ∧
      ∀ message, p.perform ((Kind.ofChar c).op message) = (.segment token, ⟨p.segment, stop⟩) := by
  generalize hk : Kind.ofChar c = k
  have hcut : p.remaining = k.run p.remaining ++ p.remaining.dropWhile (Kind.ofChar · == k) :=
    List.takeWhile_append_dropWhile.symm
  rw [hp.current?_eq] at hc
  obtain ⟨rest, hrest⟩ := List.head?_eq_some_iff.mp hc
  have hne : k.run p.remaining ≠ [] := by
    rw [hrest]
    exact Kind.run_ne_nil hk
  have hlongest : ∀ m r, p.remaining = m ++ r → k.pattern.node.takes [] m r →
      m.length ≤ (k.run p.remaining).length := by
    intro m r hcut' htakes
    rw [hcut']
    exact Kind.length_le_run (Kind.takes_pattern.mp htakes).2
  -- The run is the longest text of its kind, and the pattern of a kind is eager.
  obtain ⟨token, htake, htext, hsub⟩ := hp.take?_longest Kind.anchored_pattern Kind.eager_pattern
    hcut (Kind.takes_pattern.mpr ⟨hne, fun _ => Kind.ofChar_of_mem_run⟩) hlongest
  refine ⟨token, _, ⟨?_, ?_, hsub, ?_, ?_⟩, ?_⟩
  · have hpos : byteLength (k.run p.remaining) ≠ 0 := mt Text.byteLength_eq_zero.mp hne
    omega
  · rw [htext]
    exact hp.takes_run _
  · rw [htext]
    exact fun _ => Kind.ofChar_of_mem_run
  · intro c' hc'
    exact Kind.eq_other_iff.mpr (ne_of_beq_false (hp.next_behind_run hc'))
  · intro message
    rw [perform_op, perform_token_of_some htake]

/-- Where no character of a kind comes next, the call for that kind fails. -/
theorem Placed.refuses (hp : p.Placed) (h : ∀ c, p.current? = some c → Kind.ofChar c ≠ k)
    (message : Parser → Text) : p.perform (k.op message) = p.refusal message := by
  rw [perform_op, perform_token_of_none (hp.take?_eq_none fun m r hcut htakes => ?_)]
  obtain ⟨hne, hall⟩ := Kind.takes_pattern.mp htakes
  obtain ⟨c, m, rfl⟩ := List.exists_cons_of_ne_nil hne
  refine h c ?_ (hall c List.mem_cons_self)
  rw [hp.current?_eq, hcut]
  rfl

/-- What a call for a kind takes is a run. -/
theorem Placed.takesRun_of_perform (hp : p.Placed) {message : Parser → Text} {token : Segment}
    {q : Parser} (h : p.perform (k.op message) = (.segment token, q)) :
    ∃ stop, p.TakesRun k token stop ∧ q = ⟨p.segment, stop⟩ := by
  by_cases hk : ∃ c, p.current? = some c ∧ Kind.ofChar c = k
  · obtain ⟨c, hc, rfl⟩ := hk
    obtain ⟨token', stop, hrun, hperform⟩ := hp.takesRun hc
    rw [hperform] at h
    obtain ⟨htoken, rfl⟩ := Prod.mk.inj h
    obtain rfl := Outcome.segment.inj htoken
    exact ⟨stop, hrun, rfl⟩
  · rw [hp.refuses (fun c hc hk' => hk ⟨c, hc, hk'⟩)] at h
    cases h

/-- A call for a kind takes something just where a character of the kind comes next. -/
theorem Placed.takes_iff (hp : p.Placed) (message : Parser → Text) :
    (∃ token q, p.perform (k.op message) = (.segment token, q)) ↔
      ∃ c, p.current? = some c ∧ Kind.ofChar c = k := by
  constructor
  · rintro ⟨token, q, hperform⟩
    obtain ⟨stop, hrun, -⟩ := hp.takesRun_of_perform hperform
    obtain ⟨c, text, htext⟩ := List.exists_cons_of_ne_nil hrun.ne_nil
    refine ⟨c, ?_, hrun.kind c (by simp [htext])⟩
    rw [hp.current?_eq, hrun.takes.remaining_after, htext]
    rfl
  · rintro ⟨c, hc, rfl⟩
    obtain ⟨token, stop, -, hperform⟩ := hp.takesRun hc
    exact ⟨token, _, hperform message⟩

/-- The token's text is the run of the kind at the start of the text that is left. -/
theorem TakesRun.text_eq (hp : p.Placed) {token : Segment} {stop : Nat}
    (h : p.TakesRun k token stop) : token.text = k.run p.remaining := by
  have hnone : k.run (⟨p.segment, stop⟩ : Parser).remaining = [] := by
    have hcurrent := (h.takes.placed hp).current?_eq
    cases hr : (⟨p.segment, stop⟩ : Parser).remaining with
    | nil => rfl
    | cons c r =>
      rw [hr, List.head?_cons] at hcurrent
      exact Kind.run_eq_nil (Kind.eq_other_iff.mp (h.next c hcurrent))
  rw [h.takes.remaining_after, Kind.run_append h.kind, hnone, List.append_nil]

/-! ## Calls in turn -/

/-- Calls for a kind and for the other in turn: the tokens that they take, and the parser after
them. A call that fails takes nothing. -/
def alternate (message : Kind → Parser → Text) :
    Nat → Kind → Parser → List (Kind × Segment) × Parser
  | 0, _, p => ([], p)
  | n + 1, k, p =>
    let (outcome, p) := p.perform (k.op (message k))
    let (tokens, p) := alternate message n k.other p
    match outcome with
    | .segment token => ((k, token) :: tokens, p)
    | _ => (tokens, p)

/-- Tokens take a text of a segment apart that begins at an offset. -/
structure TakesApart (s : Segment) (start : Nat) (text : Text) (tokens : List (Kind × Segment)) :
    Prop where
  /-- Their texts make up the text. -/
  texts : tokens.flatMap (·.2.text) = text
  /-- Each has some characters, and these are of its kind. -/
  runs : ∀ t ∈ tokens, t.2.text ≠ [] ∧ ∀ c ∈ t.2.text, Kind.ofChar c = t.1
  /-- The kinds take turns. -/
  turns : tokens.IsChain fun t t' => t'.1 = t.1.other
  /-- Each is the part of the segment that begins where those before it end. -/
  parts : ∀ before t after, tokens = before ++ t :: after →
    let offset := start + byteLength (before.flatMap (·.2.text))
    s.substring offset (offset + byteLength t.2.text) = .ok t.2

section Turns

variable {message : Kind → Parser → Text} {n : Nat}

/-- A run is taken, and the next is to be one of the other kind. -/
theorem alternate_of_takes {token : Segment} {q : Parser}
    (h : p.perform (k.op (message k)) = (.segment token, q)) :
    alternate message (n + 1) k p =
      ((k, token) :: (alternate message n k.other q).1, (alternate message n k.other q).2) := by
  rw [alternate, h]

/-- If none is there, nothing is taken in that turn. -/
theorem alternate_of_refuses (h : p.perform (k.op (message k)) = p.refusal (message k)) :
    alternate message (n + 1) k p = alternate message n k.other p := by
  rw [alternate, h]
  rfl

/-- No tokens take the empty text apart. -/
theorem takesApart_nil {s : Segment} {start : Nat} : TakesApart s start [] [] where
  texts := rfl
  runs := by simp
  turns := .nil
  parts before t after h := by simp at h

/-- A run is taken, and the text behind it is taken apart from the other kind on. -/
theorem TakesRun.takesApart {token : Segment} {stop : Nat} {text : Text}
    {tokens : List (Kind × Segment)} (h : p.TakesRun k token stop)
    (hrest : TakesApart p.segment stop text tokens) (hfirst : ∀ t ∈ tokens.head?, t.1 = k.other) :
    TakesApart p.segment p.index (token.text ++ text) ((k, token) :: tokens) := by
  obtain ⟨r, hr, rfl⟩ := h.takes.remaining_eq
  refine ⟨?_, ?_, ?_, ?_⟩
  · rw [List.flatMap_cons, hrest.texts]
  · exact List.forall_mem_cons.mpr ⟨⟨h.ne_nil, h.kind⟩, hrest.runs⟩
  · exact List.isChain_cons.mpr ⟨hfirst, hrest.turns⟩
  · intro before t after htokens
    cases before with
    | nil =>
      obtain ⟨rfl, -⟩ := List.cons.inj htokens
      exact h.substring
    | cons t' before =>
      obtain ⟨rfl, hbehind⟩ := List.cons.inj htokens
      have hpart := hrest.parts before t after hbehind
      simp only [List.flatMap_cons]
      rwa [Nat.add_assoc, ← Text.byteLength_append] at hpart

/-- At the end nothing is taken, as often as the calls are made. -/
theorem Placed.alternate_atEnd (hp : p.Placed) (h : p.current? = none) :
    alternate message n k p = ([], p) := by
  induction n generalizing k with
  | zero => rfl
  | succ n ih =>
    rw [alternate_of_refuses (hp.refuses (by simp [h]) _)]
    exact ih

/-- Calls that begin with the kind of the next character take all that is left apart. -/
theorem Placed.alternate_of_first (hp : p.Placed) (hn : p.remaining.length ≤ n)
    (hk : ∀ c, p.current? = some c → Kind.ofChar c = k) :
    ∃ tokens, alternate message n k p = (tokens, ⟨p.segment, p.segment.length⟩) ∧
      TakesApart p.segment p.index p.remaining tokens ∧ ∀ t ∈ tokens.head?, t.1 = k := by
  induction n generalizing p k with
  | zero =>
    have hnil := List.eq_nil_of_length_eq_zero (Nat.le_zero.mp hn)
    have hlength := hp.length_eq
    rw [hnil] at hlength ⊢
    exact ⟨[], by rw [hlength]; rfl, takesApart_nil, by simp⟩
  | succ n ih =>
    cases hc : p.current? with
    | none =>
      have hnil : p.remaining = [] := by
        rw [hp.current?_eq] at hc
        exact List.head?_eq_none_iff.mp hc
      refine ⟨[], ?_, by rw [hnil]; exact takesApart_nil, by simp⟩
      rw [hp.alternate_atEnd hc, ← hp.current?_eq_none_iff.mp hc]
    | some c =>
      obtain rfl := hk c hc
      obtain ⟨token, stop, hrun, hperform⟩ := hp.takesRun hc
      have hremaining := hrun.takes.remaining_after
      have hne : token.text ≠ [] := hrun.ne_nil
      have hle : (⟨p.segment, stop⟩ : Parser).remaining.length ≤ n := by
        have hpos := List.length_pos_of_ne_nil hne
        rw [hremaining, List.length_append] at hn
        omega
      -- Behind the run the other kind comes next, and less is left.
      obtain ⟨tokens, halternate, hapart, hfirst⟩ := ih (hrun.takes.placed hp) hle hrun.next
      refine ⟨(Kind.ofChar c, token) :: tokens, ?_, ?_, ?_⟩
      · rw [alternate_of_takes (hperform _), halternate]
      · rw [hremaining]
        exact hrun.takesApart hapart hfirst
      · simp

/-- Calls that begin with either kind do, if there may be one more. -/
theorem Placed.alternate_takesApart (hp : p.Placed) (hn : p.remaining.length < n) :
    ∃ tokens, alternate message n k p = (tokens, ⟨p.segment, p.segment.length⟩) ∧
      TakesApart p.segment p.index p.remaining tokens := by
  by_cases hk : ∀ c, p.current? = some c → Kind.ofChar c = k
  · obtain ⟨tokens, halternate, hapart, -⟩ := hp.alternate_of_first (Nat.le_of_lt hn) hk
    exact ⟨tokens, halternate, hapart⟩
  · -- The first call fails, and the next is for the kind of the next character.
    obtain ⟨n, rfl⟩ := Nat.exists_eq_add_one_of_ne_zero (Nat.ne_zero_of_lt hn)
    push Not at hk
    obtain ⟨c, hc, hne⟩ := hk
    have hother : ∀ c', p.current? = some c' → Kind.ofChar c' = k.other := by
      intro c' hc'
      obtain rfl : c = c' := Option.some.inj (hc.symm.trans hc')
      exact Kind.eq_other_iff.mpr hne
    rw [alternate_of_refuses (hp.refuses (fun c' hc' => Kind.eq_other_iff.mp (hother c' hc')) _)]
    obtain ⟨tokens, halternate, hapart, -⟩ := hp.alternate_of_first (Nat.lt_succ_iff.mp hn) hother
    exact ⟨tokens, halternate, hapart⟩

end Turns

/-- After any calls on a parser, where something is left exactly one of the calls for blanks and for
a word succeeds, and takes the run that comes next; at the end both fail. From the start, calls for
the two in turn take the segment apart: beginning with either, as many of them as the text has
characters and one more always reach the end. -/
theorem run_takes_apart {d : Document} {s : Segment} (hs : Segment.Reachable d s) (ops : List Op)
    (hp : (ofSegment s).run ops = p) :
    (p.index < s.length → ∃ k token stop, p.TakesRun k token stop ∧
        (∀ message, p.perform (k.op message) = (.segment token, ⟨s, stop⟩)) ∧
        ∀ message, p.perform (k.other.op message) = p.refusal message) ∧
      (p.index = s.length → ∀ k message, p.perform (Kind.op message k) = p.refusal message) ∧
      ∀ message k n, s.text.length < n → ∃ tokens,
        alternate message n k (ofSegment s) = (tokens, ⟨s, s.length⟩) ∧
          TakesApart s 0 s.text tokens := by
  have hstart : (ofSegment s).Placed := ofSegment_placed hs.wellPlaced.1
  obtain ⟨hplaced, hsegment⟩ := run_placed hstart ops
  rw [hp] at hplaced hsegment
  obtain rfl : p.segment = s := hsegment
  refine ⟨?_, ?_, ?_⟩
  · intro hlt
    cases hc : p.current? with
    | none =>
      have hend := hplaced.current?_eq_none_iff.mp hc
      omega
    | some c =>
      obtain ⟨token, stop, hrun, hperform⟩ := hplaced.takesRun hc
      refine ⟨_, token, stop, hrun, hperform, hplaced.refuses fun c' hc' => ?_⟩
      obtain rfl : c = c' := Option.some.inj (hc.symm.trans hc')
      exact (Kind.eq_other_iff.mp rfl).symm
  · intro hend k message
    exact hplaced.refuses (by simp [hplaced.current?_eq_none_iff.mpr hend]) message
  · intro message k n hn
    have hremaining : (ofSegment p.segment).remaining = p.segment.text :=
      remaining_eq (l := []) rfl rfl
    rw [← hremaining] at hn ⊢
    exact hstart.alternate_takesApart hn

/-- A space that is not one of ASCII stands in a word, and a line break in a run of blanks. -/
theorem takes_apart_line_break :
    let s := Segment.ofText "é\u00a0x\r\n\tz".toList [] ⟨0, 0⟩
    let p := (ofSegment s).run [.advance 2]
    (∃ token, p.TakesRun .word token 5) ∧
      ∃ tokens, alternate (fun _ _ => []) 8 .blanks (ofSegment s) = (tokens, ⟨s, 9⟩) ∧
        TakesApart s 0 s.text tokens ∧
        tokens.map (·.2.text) = ["é\u00a0x".toList, "\r\n\t".toList, "z".toList] := by
  intro s p
  have hs : Segment.Reachable ⟨s.text, [], ⟨0, 0⟩⟩ s := .root
  obtain ⟨hrun, -, hapart⟩ := run_takes_apart hs [.advance 2] (p := p) rfl
  obtain ⟨tokens, halternate, htokens⟩ := hapart (fun _ _ => []) .blanks 8 (by decide)
  constructor
  · obtain ⟨k, token, stop, htakes, hperform, -⟩ := hrun (by decide)
    have hblanks : (p.perform (Kind.op (fun _ => []) .blanks)).1.isError = true := by decide
    have hword : (p.perform (Kind.op (fun _ => []) .word)).2.index = 5 := by decide
    cases k with
    | blanks =>
      rw [hperform] at hblanks
      cases hblanks
    | word =>
      rw [hperform] at hword
      exact ⟨token, hword ▸ htakes⟩
  · refine ⟨tokens, halternate, htokens, ?_⟩
    have htexts : (alternate (fun _ _ => []) 8 .blanks (ofSegment s)).1.map (·.2.text) =
        ["é\u00a0x".toList, "\r\n\t".toList, "z".toList] := by decide
    rwa [halternate] at htexts

end Parser

end SourceText
