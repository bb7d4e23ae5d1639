import SourceText.Proofs.Words

/-!
# Skipping to white space, and the ends of words

A parser skips to the next character with the White_Space property, and takes blanks and words by
the six blanks of ASCII. What is skipped is therefore what a word begins with, up to its first white
space (`Placed.skipped_eq`): a word ends where skipping ends, or behind that, when it goes on over
a space from beyond ASCII. Skipping and the two calls agree at a place exactly if the white space
that comes next there is one of ASCII, or if there is none (`run_skips`).
-/

namespace SourceText

open Text (byteLength)

/-- The blanks of ASCII are the white space of ASCII. -/
theorem Token.Kind.ofChar_eq_blanks_iff {c : Char} :
    ofChar c = .blanks ↔ Blank.isBlank c = true ∧ c.toNat < 0x80 := by
  rw [ofChar_eq_blanks, mem_asciiBlanks_iff]
  simp only [Blank.isBlank, Blank.table, CodeRange.anyContains, CodeRange.contains, List.any_cons,
    List.any_nil, Bool.or_false, Bool.and_eq_true, Bool.or_eq_true, decide_eq_true_eq]
  omega

/-- What is no white space at all belongs to a word. -/
theorem Token.Kind.ofChar_of_not_isBlank {c : Char} (h : Blank.isBlank c = false) :
    ofChar c = .word := by
  by_contra hne
  have hblanks := ofChar_eq_blanks_iff.mp ((eq_other_iff (k := .word)).mpr hne)
  exact Bool.false_ne_true (h.symm.trans hblanks.1)

namespace Parser

open Token (Kind)

variable {p : Parser}

/-- What is skipped: the characters up to the next white space. -/
def skipped (p : Parser) : Text := p.remaining.takeWhile (!Blank.isBlank ·)

/-- Skipping moves on by what is skipped. -/
theorem skipToBlank_eq : p.skipToBlank = ⟨p.segment, p.index + byteLength p.skipped⟩ := rfl

/-- Skipping ends at a boundary. -/
theorem Placed.skipToBlank (hp : p.Placed) : p.skipToBlank.Placed :=
  (hp.takes_run (!Blank.isBlank ·)).placed hp

/-- White space comes next then, if anything does. -/
theorem Placed.isBlank_of_skip (hp : p.Placed) {c : Char} (h : p.skipToBlank.current? = some c) :
    Blank.isBlank c = true := by
  simpa using hp.next_behind_run h

/-- What is skipped is what a word begins with. -/
theorem Placed.skipped_eq (hp : p.Placed) {token : Segment} {stop : Nat}
    (h : p.TakesRun .word token stop) : p.skipped = token.text.takeWhile (!Blank.isBlank ·) := by
  rw [h.text_eq hp, Kind.run, List.takeWhile_takeWhile, skipped]
  congr 1
  funext c
  have hword := Kind.ofChar_of_not_isBlank (c := c)
  cases hc : Blank.isBlank c <;> simp_all

/-- A word ends where skipping ends or behind that, and there just if it has no white space. -/
theorem Placed.word_of_skip (hp : p.Placed) {token : Segment} {stop : Nat}
    (h : p.TakesRun .word token stop) :
    p.skipToBlank.index ≤ stop ∧
      (stop = p.skipToBlank.index ↔ ∀ c ∈ token.text, Blank.isBlank c = false) := by
  obtain ⟨-, -, rfl⟩ := h.takes.remaining_eq
  rw [skipToBlank_eq, hp.skipped_eq h]
  -- The rest of the word begins with its first white space.
  have hcut := congrArg byteLength
    (List.takeWhile_append_dropWhile (p := (!Blank.isBlank ·)) (l := token.text))
  rw [Text.byteLength_append] at hcut
  refine ⟨Nat.add_le_add_left (by omega) _, ?_⟩
  calc p.index + byteLength token.text =
        p.index + byteLength (token.text.takeWhile (!Blank.isBlank ·))
      ↔ byteLength (token.text.dropWhile (!Blank.isBlank ·)) = 0 := by omega
    _ ↔ ∀ c ∈ token.text, Blank.isBlank c = false := by simp [Text.byteLength_eq_zero]

/-- White space within a word comes next when as much has been skipped as can be. -/
theorem Placed.current?_of_skip (hp : p.Placed) {token : Segment} {stop : Nat}
    (h : p.TakesRun .word token stop) {c : Char} (hc : c ∈ token.text)
    (hblank : Blank.isBlank c = true) :
    ∃ c' ∈ token.text, p.skipToBlank.current? = some c' := by
  have hne : token.text.dropWhile (!Blank.isBlank ·) ≠ [] := by
    intro hnil
    have hall := List.dropWhile_eq_nil_iff.mp hnil c hc
    simp [hblank] at hall
  obtain ⟨c', r, hr⟩ := List.exists_cons_of_ne_nil hne
  refine ⟨c', (List.dropWhile_sublist _).subset (hr ▸ List.mem_cons_self), ?_⟩
  rw [hp.skipToBlank.current?_eq, skipToBlank_eq, skipped, hp.remaining_behind_run,
    h.takes.remaining_after, List.dropWhile_append, hr]
  rfl

/-- Skipping and the calls for blanks and for a word agree at a place. -/
structure SkippingAgrees (p : Parser) (message : Parser → Text) : Prop where
  /-- Skipping ends at the end or where blanks can be taken. -/
  stop : p.skipToBlank.index = p.segment.length ∨
    ∃ token q, p.skipToBlank.perform (.blanks message) = (.segment token, q)
  /-- It ends where a word ends that can be taken. -/
  word : ∀ token q, p.perform (.word message) = (.segment token, q) →
    q.index = p.skipToBlank.index

/-- Skipping and the two calls agree just where the next white space is one of ASCII, or where there
is none. -/
theorem Placed.skippingAgrees_iff (hp : p.Placed) {message : Parser → Text} :
    p.SkippingAgrees message ↔ ∀ c, p.skipToBlank.current? = some c → c.toNat < 0x80 := by
  have htakes := hp.skipToBlank.takes_iff (k := .blanks) message
  constructor
  · intro h c hc
    rcases h.stop with hend | hblanks
    · rw [hp.skipToBlank.current?_eq_none_iff.mpr hend] at hc
      cases hc
    · obtain ⟨c', hc', hk⟩ := htakes.mp hblanks
      obtain rfl := Option.some.inj (hc.symm.trans hc')
      exact (Kind.ofChar_eq_blanks_iff.mp hk).2
  · intro h
    have hkind : ∀ c, p.skipToBlank.current? = some c → Kind.ofChar c = .blanks := fun c hc =>
      Kind.ofChar_eq_blanks_iff.mpr ⟨hp.isBlank_of_skip hc, h c hc⟩
    constructor
    · cases hc : p.skipToBlank.current? with
      | none => exact .inl (hp.skipToBlank.current?_eq_none_iff.mp hc)
      | some c => exact .inr (htakes.mpr ⟨c, hc, hkind c hc⟩)
    · intro token q hword
      obtain ⟨stop, hrun, rfl⟩ := hp.takesRun_of_perform (k := .word) hword
      refine (hp.word_of_skip hrun).2.mpr fun c hc => ?_
      by_contra hblank
      -- The next white space would be a character of the word.
      obtain ⟨c', hmem, hc'⟩ := hp.current?_of_skip hrun hc (by simpa using hblank)
      have hsame := (hrun.kind c' hmem).symm.trans (hkind c' hc')
      cases hsame

/-- After any calls on a parser, skipping ends at the end or at white space, where blanks can be
taken just if it is one of ASCII. A word that can be taken ends where skipping ends or behind that,
and there just if it has no white space. So skipping and the two calls agree just where the next
white space is one of ASCII, or where there is none. -/
theorem run_skips {d : Document} {s : Segment} (hs : Segment.Reachable d s) (ops : List Op)
    (hp : (ofSegment s).run ops = p) (message : Parser → Text) :
    (p.skipToBlank.index = s.length ∨ ∃ c, p.skipToBlank.current? = some c ∧
        Blank.isBlank c = true ∧
        ((∃ token q, p.skipToBlank.perform (.blanks message) = (.segment token, q)) ↔
          c.toNat < 0x80)) ∧
      (∀ token q, p.perform (.word message) = (.segment token, q) →
        p.skipToBlank.index ≤ q.index ∧
          (q.index = p.skipToBlank.index ↔ ∀ c ∈ token.text, Blank.isBlank c = false)) ∧
      (p.SkippingAgrees message ↔
        ∀ c, p.skipToBlank.current? = some c → c.toNat < 0x80) := by
  obtain ⟨hplaced, hsegment⟩ := run_placed (ofSegment_placed hs.wellPlaced.1) ops
  rw [hp] at hplaced hsegment
  obtain rfl : p.segment = s := hsegment
  refine ⟨?_, ?_, hplaced.skippingAgrees_iff⟩
  · cases hc : p.skipToBlank.current? with
    | none => exact .inl (hplaced.skipToBlank.current?_eq_none_iff.mp hc)
    | some c =>
      have hblank := hplaced.isBlank_of_skip hc
      have htakes := hplaced.skipToBlank.takes_iff (k := .blanks) message
      refine .inr ⟨c, rfl, hblank, htakes.trans ?_⟩
      simp [hc, Kind.ofChar_eq_blanks_iff, hblank]
  · intro token q hword
    obtain ⟨stop, hrun, rfl⟩ := hplaced.takesRun_of_perform (k := .word) hword
    exact hplaced.word_of_skip hrun

/-- Skipping stops before a space from beyond ASCII, where no blanks are taken; and a word goes on
over it to the end. -/
theorem skipping_differs_wide_space :
    let p := ofSegment (.ofText "\u00a0x".toList [] ⟨0, 0⟩)
    ¬ p.SkippingAgrees (fun _ => []) ∧ p.skipToBlank.index = 0 ∧ p.segment.length = 3 ∧
      (p.skipToBlank.perform (.blanks fun _ => [])).1.isError = true ∧
      ∃ token, p.perform (.word fun _ => []) = (.segment token, ⟨p.segment, 3⟩) := by
  intro p
  have hskip : p.skipToBlank.index = 0 := by decide
  have hword : p.perform (.word fun _ => []) =
      (.segment (p.segment.derive 0 3), ⟨p.segment, 3⟩) := by decide
  refine ⟨fun h => ?_, hskip, by decide, by decide, _, hword⟩
  have hindex := h.word _ _ hword
  rw [hskip] at hindex
  cases hindex

/-- Behind such a space they agree. -/
theorem skips_behind_wide_space :
    let p := (ofSegment (.ofText "a\u00a0b c".toList [] ⟨0, 0⟩)).run [.advance 3]
    p.skipToBlank.index = 4 ∧ p.SkippingAgrees fun _ => [] := by
  intro p
  have hnext : p.skipToBlank.current? = some ' ' := by decide
  refine ⟨by decide, ?_⟩
  refine (run_skips (.root (d := ⟨"a\u00a0b c".toList, [], ⟨0, 0⟩⟩)) [.advance 3] rfl _).2.2.mpr ?_
  intro c hc
  obtain rfl := Option.some.inj (hnext.symm.trans hc)
  decide

end Parser

end SourceText
