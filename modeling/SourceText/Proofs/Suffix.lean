import Mathlib.Tactic.SplitIfs
import SourceText.Pattern.Reader

/-!
# Reading with a text behind

The text of the pattern that matches whole texts only is that of another pattern with some signs in
front of it and `wholeSuffix` behind. `Behind t t'` says that `t'` is what is left to read where `t`
is left without the suffix. The two may also be the same: a comment that the pattern does not end
runs on over the suffix, and then nothing is left of either.

A reader of one sign is `Blind` to what is behind: if it succeeds with the suffix behind and
without, it reads the same and stays in step. Where the pattern alone comes to an end, the suffix
goes on with a closing parenthesis, and no run of signs goes on over that.
-/

namespace SourceText.Pattern

/-- What is behind a pattern in the pattern that matches whole texts only. -/
def wholeSuffix : Text := [')', '\\', 'z']

/-- What is left to read with the suffix behind, and without it. -/
def Behind (t t' : Text) : Prop := t' = t ++ wholeSuffix ∨ t' = t

/-- The reader does not see what is behind the text that it reads. -/
def Blind {α : Type} (f : Text → Except SyntaxError (α × Text)) : Prop :=
  ∀ ⦃t t' : Text⦄ ⦃a a' : α⦄ ⦃r r' : Text⦄, Behind t t' → f t = .ok (a, r) →
    f t' = .ok (a', r') → a' = a ∧ Behind r r'

namespace Behind

variable {t t' : Text}

/-- Where the pattern ends, the suffix is left or nothing is. -/
theorem nil (h : Behind [] t') : t' = wholeSuffix ∨ t' = [] := h

/-- A sign of the pattern comes first with the suffix behind and without. -/
theorem cons {c : Char} (h : Behind (c :: t) t') : ∃ u, t' = c :: u ∧ Behind t u := by
  rcases h with rfl | rfl
  · exact ⟨t ++ wholeSuffix, rfl, .inl rfl⟩
  · exact ⟨t, rfl, .inr rfl⟩

/-- Behind the same sign the two are in step exactly if they were before it. -/
theorem cons_iff {c : Char} : Behind (c :: t) (c :: t') ↔ Behind t t' := by
  unfold Behind
  rw [List.cons_append, List.cons.injEq, List.cons.injEq]
  simp

/-- What is read with the suffix behind is in the pattern, unless it is the parenthesis with which
the suffix starts. -/
theorem of_cons {c : Char} (h : Behind t (c :: t')) (hc : c ≠ ')') :
    ∃ u, t = c :: u ∧ Behind u t' := by
  cases t with
  | nil =>
    rcases h.nil with h | h
    · exact absurd (List.head_eq_of_cons_eq h) hc
    · cases h
  | cons d u =>
    obtain ⟨u', heq, hu⟩ := h.cons
    obtain ⟨rfl, rfl⟩ := List.cons.inj heq
    exact ⟨u, rfl, hu⟩

/-- A comment that the pattern does not end takes the suffix with it. -/
theorem dropSpace (inComment : Bool) (h : Behind t t') :
    Behind (Pattern.dropSpace inComment t) (Pattern.dropSpace inComment t') := by
  rcases h with rfl | rfl
  · induction t generalizing inComment with
    | nil => cases inComment with
      | false => exact .inl rfl
      | true => exact .inr rfl -- The suffix is in the comment, so nothing of it is left.
    | cons c t ih =>
      rw [List.cons_append]
      unfold Pattern.dropSpace
      split_ifs
      · exact ih _
      · exact ih _
      · exact ih _
      · exact .inl rfl
  · exact .inr rfl

/-- Skipping blanks and comments keeps the two in step. -/
theorem skipSpace (extended : Bool) (h : Behind t t') :
    Behind (Pattern.skipSpace extended t) (Pattern.skipSpace extended t') := by
  cases extended with
  | false => exact h
  | true => exact h.dropSpace false

/-- A run of signs does not go on over the suffix. -/
theorem dropWhile {p : Char → Bool} (hp : p ')' = false) (h : Behind t t') :
    Behind (t.dropWhile p) (t'.dropWhile p) := by
  rcases h with rfl | rfl
  · -- Where the text ends, the run stops at the parenthesis of the suffix.
    left
    induction t with
    | nil => simp [wholeSuffix, hp]
    | cons c t ih =>
      rw [List.cons_append, List.dropWhile_cons, List.dropWhile_cons]
      split_ifs
      · exact ih
      · rfl
  · exact .inr rfl

/-- So two runs are the same, if they are bounded alike or not at all. -/
theorem readRun (extended : Bool) (kind : Char → Bool) (hkind : kind ')' = false) {n n' : Nat}
    (hn : n' = n ∨ t.length ≤ n ∧ t.length ≤ n') (inComment : Bool) (h : Behind t t') :
    (Pattern.readRun extended kind n' inComment t').1 =
        (Pattern.readRun extended kind n inComment t).1 ∧
      Behind (Pattern.readRun extended kind n inComment t).2
        (Pattern.readRun extended kind n' inComment t').2 := by
  -- The bounds stay equal, or both stay beyond the length of what is left.
  induction t generalizing t' n n' inComment with
  | nil =>
    rcases h.nil with rfl | rfl
    · cases inComment with
      | true => exact ⟨rfl, .inr rfl⟩
      | false =>
        have hstop : Pattern.readRun extended kind n' false wholeSuffix = ([], wholeSuffix) := by
          simp [wholeSuffix, Pattern.readRun, hkind, show Blank.isBlank ')' = false from rfl]
        rw [hstop]
        exact ⟨rfl, .inl rfl⟩
    · exact ⟨rfl, .inr rfl⟩
  | cons c t ih =>
    obtain ⟨u, rfl, hu⟩ := h.cons
    have hlen : ∀ k, (c :: t).length ≤ k → t.length ≤ k - 1 ∧ k ≠ 0 := by
      intro k hk
      rw [List.length_cons] at hk
      omega
    have hmore : n' = n ∨ t.length ≤ n ∧ t.length ≤ n' := by
      rcases hn with hn | ⟨hn, hn'⟩
      · exact .inl hn
      · rw [List.length_cons] at hn hn'
        exact .inr ⟨by omega, by omega⟩
    have hless : n' - 1 = n - 1 ∨ t.length ≤ n - 1 ∧ t.length ≤ n' - 1 := by
      rcases hn with rfl | ⟨hn, hn'⟩
      · exact .inl rfl
      · exact .inr ⟨(hlen n hn).1, (hlen n' hn').1⟩
    have hzero : (n' ≠ 0 ∧ kind c = true) ↔ (n ≠ 0 ∧ kind c = true) := by
      rcases hn with rfl | ⟨hn, hn'⟩
      · exact Iff.rfl
      · simp [(hlen n hn).2, (hlen n' hn').2]
    unfold Pattern.readRun
    simp only [hzero]
    split_ifs
    · exact ih hmore _ hu
    · obtain ⟨hrun, hrest⟩ := ih hless false hu
      simp only
      exact ⟨by rw [hrun], hrest⟩
    · exact ih hmore _ hu
    · exact ih hmore _ hu
    · exact ⟨rfl, cons_iff.mpr hu⟩

/-- Two runs of one kind are the same, if a closing parenthesis is not of that kind. -/
theorem readAll (extended : Bool) (kind : Char → Bool) (hkind : kind ')' = false)
    (h : Behind t t') :
    (Pattern.readAll extended kind t').1 = (Pattern.readAll extended kind t).1 ∧
      Behind (Pattern.readAll extended kind t).2 (Pattern.readAll extended kind t').2 := by
  refine h.readRun extended kind hkind (.inr ⟨Nat.le_refl _, ?_⟩) false
  rcases h with rfl | rfl
  · simp
  · exact Nat.le_refl _

end Behind

/-! ## Escapes -/

/-- A result that has been mapped is a result. -/
theorem map_eq_ok {α β : Type} {f : α → β} {x : Except SyntaxError α} {b : β} :
    x.map f = .ok b ↔ ∃ a, x = .ok a ∧ f a = b := by
  cases x <;> simp [Except.map]

/-- A blind reader stays blind when what it reads is made into something else. -/
theorem Blind.map {α β : Type} {f : Text → Except SyntaxError (α × Text)} (hf : Blind f)
    (g : α → β) : Blind fun t => (f t).map fun (a, r) => (g a, r) := by
  intro t t' b b' r r' ht h h'
  obtain ⟨⟨a, u⟩, ha, hb⟩ := map_eq_ok.mp h
  obtain ⟨⟨a', u'⟩, ha', hb'⟩ := map_eq_ok.mp h'
  obtain ⟨rfl, rfl⟩ := Prod.mk.inj hb
  obtain ⟨rfl, rfl⟩ := Prod.mk.inj hb'
  obtain ⟨rfl, hr⟩ := hf ht ha ha'
  exact ⟨rfl, hr⟩

/-- Digits of a code point are read without regard to what is behind. -/
theorem blind_readCodePoint (extended : Bool) (width : Nat) :
    Blind (readCodePoint extended width) := by
  intro t t' a a' r r' ht h h'
  unfold readCodePoint at h h'
  have hs := ht.skipSpace extended
  cases hu : skipSpace extended t with
  | nil => simp [hu] at h
  | cons c u =>
    rw [hu] at h hs
    obtain ⟨u', hu', hs⟩ := hs.cons
    rw [hu'] at h'
    simp only at h h'
    split_ifs at h h'
    · -- Digits in braces.
      obtain ⟨hdigits, hrest⟩ :=
        (hs.skipSpace extended).readAll extended Digits.isHex rfl
      generalize readAll extended Digits.isHex (skipSpace extended u) = run at h hdigits hrest
      generalize readAll extended Digits.isHex (skipSpace extended u') = run' at h' hdigits hrest
      obtain ⟨digits, v⟩ := run
      obtain ⟨digits', v'⟩ := run'
      obtain rfl : digits' = digits := hdigits
      cases v with
      | nil => simp at h
      | cons e v =>
        obtain ⟨w, rfl, hw⟩ := hrest.cons
        simp only at h h'
        split_ifs at h h'
        obtain ⟨b, hb, hr⟩ := map_eq_ok.mp h
        obtain ⟨b', hb', hr'⟩ := map_eq_ok.mp h'
        obtain ⟨rfl, rfl⟩ := Prod.mk.inj hr
        obtain ⟨rfl, rfl⟩ := Prod.mk.inj hr'
        rw [hb] at hb'
        exact ⟨(Except.ok.inj hb').symm, hw.skipSpace extended⟩
    · -- A fixed number of digits.
      obtain ⟨hdigits, hrest⟩ := (Behind.cons_iff (c := c).mpr hs).readRun extended Digits.isHex rfl
        (n := width) (.inl rfl) false
      generalize readRun extended Digits.isHex width false (c :: u) = run at h hdigits hrest
      generalize readRun extended Digits.isHex width false (c :: u') = run' at h' hdigits hrest
      obtain ⟨digits, v⟩ := run
      obtain ⟨digits', v'⟩ := run'
      obtain rfl : digits' = digits := hdigits
      simp only at h h'
      obtain ⟨b, hb, hr⟩ := map_eq_ok.mp h
      obtain ⟨b', hb', hr'⟩ := map_eq_ok.mp h'
      obtain ⟨rfl, rfl⟩ := Prod.mk.inj hr
      obtain ⟨rfl, rfl⟩ := Prod.mk.inj hr'
      rw [hb] at hb'
      exact ⟨(Except.ok.inj hb').symm, hrest⟩

/-- The sign after an escaped word boundary is not taken, unless it begins the name of one. -/
theorem blind_readBoundary (extended : Bool) : Blind (readBoundary extended) := by
  intro t t' a a' r r' ht h h'
  unfold readBoundary at h h'
  simp only at h h'
  cases t with
  | nil =>
    obtain ⟨rfl, rfl⟩ := Prod.mk.inj (Except.ok.inj h)
    rcases ht.nil with rfl | rfl
    · obtain ⟨rfl, rfl⟩ := Prod.mk.inj (Except.ok.inj h')
      exact ⟨rfl, .inl rfl⟩
    · obtain ⟨rfl, rfl⟩ := Prod.mk.inj (Except.ok.inj h')
      exact ⟨rfl, .inr rfl⟩
  | cons b u =>
    obtain ⟨u', rfl, hu⟩ := ht.cons
    simp only at h h'
    split_ifs at h h'
    · -- No brace follows, so what is there is left alone.
      obtain ⟨rfl, rfl⟩ := Prod.mk.inj (Except.ok.inj h)
      obtain ⟨rfl, rfl⟩ := Prod.mk.inj (Except.ok.inj h')
      exact ⟨rfl, ht⟩
    · -- Behind the brace there is a name, or it is the brace of a repetition.
      have hs := hu.skipSpace extended
      cases hv : skipSpace extended u with
      | nil => simp [hv] at h
      | cons c v =>
        rw [hv] at h hs
        obtain ⟨v', hv', hw⟩ := hs.cons
        rw [hv'] at h' hs
        simp only at h h'
        split_ifs at h h'
        · obtain ⟨hname, hrest⟩ :=
            hs.readAll extended (fun c : Char => c.isAlpha || c == '-') rfl
          generalize readAll extended (fun c : Char => c.isAlpha || c == '-') (c :: v) = run
            at h hname hrest
          generalize readAll extended (fun c : Char => c.isAlpha || c == '-') (c :: v') = run'
            at h' hname hrest
          obtain ⟨name, w⟩ := run
          obtain ⟨name', w'⟩ := run'
          obtain rfl : name' = name := hname
          cases w with
          | nil => simp at h
          | cons e w =>
            obtain ⟨x, rfl, hx⟩ := hrest.cons
            simp only at h h'
            cases hb : boundaryOfName? name' with
            | none => simp [hb] at h
            | some b =>
              rw [hb] at h h'
              simp only at h h'
              split_ifs at h h'
              obtain ⟨rfl, rfl⟩ := Prod.mk.inj (Except.ok.inj h)
              obtain ⟨rfl, rfl⟩ := Prod.mk.inj (Except.ok.inj h')
              exact ⟨rfl, hx⟩
        · obtain ⟨rfl, rfl⟩ := Prod.mk.inj (Except.ok.inj h)
          obtain ⟨rfl, rfl⟩ := Prod.mk.inj (Except.ok.inj h')
          exact ⟨rfl, ht⟩

/-- So is what a backslash stands in front of. -/
theorem blind_readEscape (extended : Bool) : Blind (readEscape extended) := by
  intro t t' a a' r r' ht h h'
  cases t with
  | nil => simp [readEscape] at h
  | cons c u =>
    obtain ⟨u', rfl, hu⟩ := ht.cons
    rw [readEscape] at h h'
    have hpoint := fun width => (blind_readCodePoint extended width).map Atom.char
    have hdone : ∀ b, Except.ok (b, u) = (.ok (a, r) : Except SyntaxError (Atom × Text)) →
        Except.ok (b, u') = (.ok (a', r') : Except SyntaxError (Atom × Text)) →
        a' = a ∧ Behind r r' := by
      intro b hb hb'
      obtain ⟨rfl, rfl⟩ := Prod.mk.inj (Except.ok.inj hb)
      obtain ⟨rfl, rfl⟩ := Prod.mk.inj (Except.ok.inj hb')
      exact ⟨rfl, hu⟩
    split_ifs at h h'
    · exact hdone _ h h'
    · exact hpoint 2 hu h h'
    · exact hpoint 4 hu h h'
    · exact hpoint 8 hu h h'
    · exact (blind_readBoundary extended).map Atom.assertion hu h h'
    · cases hc : atomOfLetter? c with
      | none => simp [hc] at h
      | some b =>
        rw [hc] at h h'
        exact hdone b h h'

/-! ## Flags -/

/-- Flags that agree about blanks, and about all the rest if `same` holds. -/
structure Flags.Alike (same : Prop) (f f' : Flags) : Prop where
  /-- They leave out blanks alike. -/
  extended : f'.extended = f.extended
  /-- They are the same. -/
  eq : same → f' = f

namespace Flags.Alike

variable {same : Prop} {f f' g g' : Flags}

/-- Switching a flag in both keeps them alike. -/
theorem set? (h : f.Alike same f') {letter : Char} {on : Bool} (hg : f.set? letter on = some g)
    (hg' : f'.set? letter on = some g') : g.Alike same g' := by
  refine ⟨?_, fun hs => ?_⟩
  · -- Every flag but `x` leaves `extended` as it is, and `x` sets it in both.
    unfold Flags.set? at hg hg'
    split_ifs at hg hg' <;> cases hg <;> cases hg' <;> first | exact h.extended | rfl
  · rw [h.eq hs, hg] at hg'
    exact (Option.some.inj hg').symm

/-- Both readings of flags come to flags that are alike, and to the same end. -/
theorem read (h : f.Alike same f') {negated : Bool} {seen : List Char} {t t' r r' : Text}
    {e e' : Ending} (ht : Behind t t') (hg : f.read negated seen t = .ok (g, e, r))
    (hg' : f'.read negated seen t' = .ok (g', e', r')) :
    g.Alike same g' ∧ e' = e ∧ Behind r r' := by
  induction t generalizing f f' t' negated seen with
  | nil => simp [Flags.read] at hg
  | cons c u ih =>
    obtain ⟨u', rfl, hu⟩ := ht.cons
    rw [Flags.read] at hg hg'
    -- A colon or a closing parenthesis ends the flags, a hyphen negates those behind it, and any
    -- other sign is one of them.
    split_ifs at hg hg'
    · obtain ⟨rfl, hr⟩ := Prod.mk.inj (Except.ok.inj hg)
      obtain ⟨rfl, rfl⟩ := Prod.mk.inj hr
      obtain ⟨rfl, hr'⟩ := Prod.mk.inj (Except.ok.inj hg')
      obtain ⟨rfl, rfl⟩ := Prod.mk.inj hr'
      exact ⟨h, rfl, hu⟩
    · obtain ⟨rfl, hr⟩ := Prod.mk.inj (Except.ok.inj hg)
      obtain ⟨rfl, rfl⟩ := Prod.mk.inj hr
      obtain ⟨rfl, hr'⟩ := Prod.mk.inj (Except.ok.inj hg')
      obtain ⟨rfl, rfl⟩ := Prod.mk.inj hr'
      exact ⟨h, rfl, hu⟩
    · exact ih h hu hg hg'
    · cases hset : f.set? c (!negated) with
      | none => simp [hset] at hg
      | some k =>
        cases hset' : f'.set? c (!negated) with
        | none => simp [hset'] at hg'
        | some k' =>
          rw [hset] at hg
          rw [hset'] at hg'
          exact ih (h.set? hset hset') hu hg hg'

end Flags.Alike

/-! ## Names and counts -/

namespace Reader

/-- A name is read without regard to what is behind, as a closing parenthesis is in none. -/
theorem blind_readName (first : Bool) : Blind (readName first) := by
  intro t
  induction t generalizing first with
  | nil =>
    intro t' a a' r r' ht h
    simp [readName] at h
  | cons c u ih =>
    intro t' a a' r r' ht h h'
    obtain ⟨u', rfl, hu⟩ := ht.cons
    rw [readName] at h h'
    split_ifs at h h'
    · obtain ⟨rfl, rfl⟩ := Prod.mk.inj (Except.ok.inj h)
      obtain ⟨rfl, rfl⟩ := Prod.mk.inj (Except.ok.inj h')
      exact ⟨rfl, hu⟩
    · obtain ⟨⟨name, v⟩, hname, hr⟩ := map_eq_ok.mp h
      obtain ⟨⟨name', v'⟩, hname', hr'⟩ := map_eq_ok.mp h'
      obtain ⟨rfl, rfl⟩ := Prod.mk.inj hr
      obtain ⟨rfl, rfl⟩ := Prod.mk.inj hr'
      obtain ⟨rfl, hv⟩ := ih false hu hname hname'
      exact ⟨rfl, hv⟩

/-- So is a number in braces. -/
theorem blind_readCount (extended : Bool) : Blind (readCount extended) := by
  intro t t' a a' r r' ht h h'
  have hblank : Blank.isBlank ')' = false := rfl
  unfold readCount at h h'
  simp only at h h'
  obtain ⟨hdigits, hrest⟩ :=
    (ht.dropWhile hblank).readAll extended Char.isDigit rfl
  generalize readAll extended Char.isDigit (t.dropWhile Blank.isBlank) = run at h hdigits hrest
  generalize readAll extended Char.isDigit (t'.dropWhile Blank.isBlank) = run' at h' hdigits hrest
  obtain ⟨digits, v⟩ := run
  obtain ⟨digits', v'⟩ := run'
  obtain rfl : digits' = digits := hdigits
  simp only at h h'
  split_ifs at h h'
  · obtain ⟨rfl, rfl⟩ := Prod.mk.inj (Except.ok.inj h)
    obtain ⟨rfl, rfl⟩ := Prod.mk.inj (Except.ok.inj h')
    exact ⟨rfl, hrest.dropWhile hblank⟩
  · obtain ⟨rfl, rfl⟩ := Prod.mk.inj (Except.ok.inj h)
    obtain ⟨rfl, rfl⟩ := Prod.mk.inj (Except.ok.inj h')
    exact ⟨rfl, hrest.dropWhile hblank⟩

/-- Counts are one number, a number and a comma, or two numbers, before a closing brace. -/
theorem readCounts_eq_ok {extended : Bool} {t r : Text} {least : Nat} {most : Option Nat}
    (h : readCounts extended t = .ok ((least, most), r)) :
    ∃ u, readCount extended (skipSpace extended t) = .ok (some least, u) ∧
      (u = '\x7d' :: r ∧ most = some least ∨
        ∃ v, u = ',' :: v ∧
          (skipSpace extended v = '\x7d' :: r ∧ most = none ∨
            (∀ w, skipSpace extended v ≠ '\x7d' :: w) ∧
              ∃ m, readCount extended (skipSpace extended v) = .ok (some m, '\x7d' :: r) ∧
                most = some m)) := by
  unfold readCounts at h
  simp only [bind, Except.bind, pure, Except.pure, throw, throwThe, MonadExceptOf.throw] at h
  cases hc : readCount extended (skipSpace extended t) with
  | error e => simp [hc] at h
  | ok p =>
    obtain ⟨n, u⟩ := p
    simp only [hc] at h
    -- A brace closes behind the first number, or a comma follows it.
    split at h
    · obtain ⟨hcounts, rfl⟩ := Prod.mk.inj (Except.ok.inj h)
      obtain ⟨rfl, rfl⟩ := Prod.mk.inj hcounts
      exact ⟨_, rfl, .inl ⟨rfl, rfl⟩⟩
    · split at h
      · rename_i hv
        obtain ⟨hcounts, rfl⟩ := Prod.mk.inj (Except.ok.inj h)
        obtain ⟨rfl, rfl⟩ := Prod.mk.inj hcounts
        exact ⟨_, rfl, .inr ⟨_, rfl, .inl ⟨hv, rfl⟩⟩⟩
      · rename_i v _ hv
        -- Behind the comma there is a second number.
        cases hm : readCount extended (skipSpace extended v) with
        | error e => simp [hm] at h
        | ok p =>
          obtain ⟨m, w⟩ := p
          simp only [hm] at h
          split at h
          · split_ifs at h
            obtain ⟨hcounts, rfl⟩ := Prod.mk.inj (Except.ok.inj h)
            obtain ⟨rfl, rfl⟩ := Prod.mk.inj hcounts
            exact ⟨_, rfl, .inr ⟨_, rfl, .inr ⟨hv, _, hm, rfl⟩⟩⟩
          · cases h
    · cases h

/-- So are the bounds in braces. -/
theorem blind_readCounts (extended : Bool) : Blind (readCounts extended) := by
  intro t t' a a' r r' ht h h'
  obtain ⟨least, most⟩ := a
  obtain ⟨least', most'⟩ := a'
  obtain ⟨u, hc, h⟩ := readCounts_eq_ok h
  obtain ⟨u', hc', h'⟩ := readCounts_eq_ok h'
  obtain ⟨hleast, hu⟩ := blind_readCount extended (ht.skipSpace extended) hc hc'
  obtain rfl : least' = least := Option.some.inj hleast
  -- Which of the three forms it is, the sign behind the first count says to both.
  rcases h with ⟨rfl, rfl⟩ | ⟨v, rfl, h⟩
  · obtain ⟨w, rfl, hw⟩ := hu.cons
    rcases h' with ⟨hw', rfl⟩ | ⟨v', hv', -⟩
    · obtain rfl := List.tail_eq_of_cons_eq hw'
      exact ⟨rfl, hw⟩
    · cases hv'
  · obtain ⟨w, rfl, hw⟩ := hu.cons
    rcases h' with ⟨hw', -⟩ | ⟨v', hv', h'⟩
    · cases hw'
    · obtain rfl := List.tail_eq_of_cons_eq hv'
      have hs := hw.skipSpace extended
      rcases h with ⟨hv, rfl⟩ | ⟨hne, m, hm, rfl⟩
      · rw [hv] at hs
        obtain ⟨x, hx, hr⟩ := hs.cons
        rcases h' with ⟨hv', rfl⟩ | ⟨hne', -⟩
        · -- A number and a comma.
          rw [hx] at hv'
          obtain rfl := List.tail_eq_of_cons_eq hv'
          exact ⟨rfl, hr⟩
        · exact absurd hx (hne' x)
      · rcases h' with ⟨hv', -⟩ | ⟨-, m', hm', rfl⟩
        · rw [hv'] at hs
          obtain ⟨x, hx, -⟩ := hs.of_cons (by decide)
          exact absurd hx (hne x)
        · -- Two numbers.
          obtain ⟨hmost, hr⟩ := blind_readCount extended hs hm hm'
          obtain rfl : m' = m := Option.some.inj hmost
          exact ⟨rfl, Behind.cons_iff.mp hr⟩

end Reader

end SourceText.Pattern
