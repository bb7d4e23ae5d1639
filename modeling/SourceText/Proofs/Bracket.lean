import SourceText.Proofs.Suffix

/-!
# Bracketed classes with a text behind

A bracketed class that is closed is read alike whatever is behind it. Looking past a bracket or a
hyphen, the reader may come to the end of the pattern and see the suffix there; what it decides then
is the same (`readAsciiClass?_behind`, `operationAt?_behind`, `signAfterHyphen_behind`). Folding
letters changes the sets that are read and nothing else (`readMembers_behind`).
-/

namespace SourceText.Pattern.Bracket

/-! ## Signs of a class -/

/-- What opens a class is read without regard to what is behind. -/
theorem blind_readOpening (extended : Bool) : Blind (readOpening extended) := by
  intro t t' a a' r r' ht h h'
  unfold readOpening at h h'
  have hs := ht.skipSpace extended
  cases hu : skipSpace extended t with
  | nil => simp [hu] at h
  | cons c u =>
    rw [hu] at h hs
    obtain ⟨u', hu', hs⟩ := hs.cons
    rw [hu'] at h'
    simp only at h h'
    have hstart : Behind (if (c == '^') = true then skipSpace extended u else c :: u)
        (if (c == '^') = true then skipSpace extended u' else c :: u') := by
      split_ifs
      · exact hs.skipSpace extended
      · exact Behind.cons_iff.mpr hs
    -- Hyphens in front are characters of the class.
    obtain ⟨hhyphens, hrest⟩ := hstart.readAll extended (· == '-') rfl
    generalize readAll extended (· == '-')
      (if (c == '^') = true then skipSpace extended u else c :: u) = run at h hhyphens hrest
    generalize readAll extended (· == '-')
      (if (c == '^') = true then skipSpace extended u' else c :: u') = run' at h' hhyphens hrest
    obtain ⟨hyphens, v⟩ := run
    obtain ⟨hyphens', v'⟩ := run'
    obtain rfl : hyphens' = hyphens := hhyphens
    cases v with
    | nil => simp at h
    | cons d v =>
      obtain ⟨w, rfl, hw⟩ := hrest.cons
      have hkeep : Behind (d :: v) (d :: w) := Behind.cons_iff.mpr hw
      cases hyphens' with
      | cons e hyphens =>
        obtain ⟨rfl, rfl⟩ := Prod.mk.inj (Except.ok.inj h)
        obtain ⟨rfl, rfl⟩ := Prod.mk.inj (Except.ok.inj h')
        exact ⟨rfl, hkeep⟩
      | nil =>
        simp only at h h'
        split_ifs at h h'
        · -- A closing bracket in front is one too.
          have hs := hw.skipSpace extended
          cases hx : skipSpace extended v with
          | nil => simp [hx] at h
          | cons e x =>
            rw [hx] at h hs
            obtain ⟨x', hx', hs⟩ := hs.cons
            rw [hx'] at h'
            obtain ⟨rfl, rfl⟩ := Prod.mk.inj (Except.ok.inj h)
            obtain ⟨rfl, rfl⟩ := Prod.mk.inj (Except.ok.inj h')
            exact ⟨rfl, Behind.cons_iff.mpr hs⟩
        · obtain ⟨rfl, rfl⟩ := Prod.mk.inj (Except.ok.inj h)
          obtain ⟨rfl, rfl⟩ := Prod.mk.inj (Except.ok.inj h')
          exact ⟨rfl, hkeep⟩

/-- A run that ends in a text ends there with a text behind too. -/
theorem span_append {p : Char → Bool} {l : Text} (h : l.dropWhile p ≠ []) (s : Text) :
    (l ++ s).takeWhile p = l.takeWhile p ∧ (l ++ s).dropWhile p = l.dropWhile p ++ s := by
  induction l with
  | nil => exact absurd rfl h
  | cons c l ih =>
    rw [List.cons_append, List.takeWhile_cons, List.takeWhile_cons, List.dropWhile_cons,
      List.dropWhile_cons]
    rw [List.dropWhile_cons] at h
    split_ifs at h ⊢
    · obtain ⟨htake, hdrop⟩ := ih h
      exact ⟨by rw [htake], hdrop⟩
    · exact ⟨rfl, rfl⟩

/-- The name of an ASCII class after its colon and perhaps its caret, up to and with the colon and
the bracket that end it. -/
def asciiName? (negated : Bool) (text : Text) : Option (Bool × CharSet × Text) :=
  match text.dropWhile (· != ':') with
  | ':' :: ']' :: after =>
    (CharSet.ofAsciiName? (text.takeWhile (· != ':'))).map (negated, ·, after)
  | _ => none

/-- Behind the colon there is a name, perhaps behind a caret. -/
theorem readAsciiClass?_colon (text : Text) :
    readAsciiClass? (':' :: text) =
      asciiName? (text.head? == some '^')
        (if text.head? == some '^' then text.tail else text) := rfl

/-- Without a colon there is no ASCII class. -/
theorem readAsciiClass?_of_ne {c : Char} (hc : c ≠ ':') (text : Text) :
    readAsciiClass? (c :: text) = none := by
  unfold readAsciiClass?
  split
  · rename_i h
    exact absurd (List.head_eq_of_cons_eq h) hc
  · rfl

/-- There is no name unless a colon and a bracket end it. -/
theorem asciiName?_eq_none {text : Text}
    (h : ∀ after, text.dropWhile (· != ':') ≠ ':' :: ']' :: after) (negated : Bool) :
    asciiName? negated text = none := by
  unfold asciiName?
  split
  · rename_i heq
    exact absurd heq (h _)
  · rfl

/-- A name that the pattern does not end is ended by no colon of the suffix. -/
theorem asciiName?_append (negated : Bool) (text : Text) :
    asciiName? negated text = none ∧ asciiName? negated (text ++ wholeSuffix) = none ∨
      ∃ s r, asciiName? negated text = some (negated, s, r) ∧
        asciiName? negated (text ++ wholeSuffix) = some (negated, s, r ++ wholeSuffix) := by
  by_cases hended : ∃ after, text.dropWhile (· != ':') = ':' :: ']' :: after
  · -- The name ends in the pattern, so it is the same with the suffix behind.
    obtain ⟨after, hd⟩ := hended
    obtain ⟨htake, hdrop⟩ := span_append (p := (· != ':')) (l := text) (by simp [hd]) wholeSuffix
    unfold asciiName?
    rw [htake, hdrop, hd]
    simp only [List.cons_append]
    cases CharSet.ofAsciiName? (text.takeWhile (· != ':')) with
    | none => exact .inl ⟨rfl, rfl⟩
    | some s => exact .inr ⟨s, after, rfl, rfl⟩
  · -- It does not, and the suffix has neither a colon nor a closing bracket.
    have hnone : ∀ after, (text ++ wholeSuffix).dropWhile (· != ':') ≠ ':' :: ']' :: after := by
      intro after h
      cases hd : text.dropWhile (· != ':') with
      | nil =>
        rw [List.dropWhile_append, hd] at h
        cases h
      | cons c x =>
        obtain ⟨-, hdrop⟩ := span_append (p := (· != ':')) (l := text) (by simp [hd]) wholeSuffix
        rw [hdrop, hd] at h
        cases x with
        | nil => cases h
        | cons d y =>
          obtain ⟨rfl, htail⟩ := List.cons.inj h
          obtain ⟨rfl, -⟩ := List.cons.inj htail
          exact hended ⟨y, hd⟩
    exact .inl ⟨asciiName?_eq_none (fun after h => hended ⟨after, h⟩) negated,
      asciiName?_eq_none hnone negated⟩

/-- An ASCII class is read with the suffix behind exactly if it is read without. -/
theorem readAsciiClass?_behind {t t' : Text} (ht : Behind t t') :
    readAsciiClass? t = none ∧ readAsciiClass? t' = none ∨
      ∃ negated s r r', readAsciiClass? t = some (negated, s, r) ∧
        readAsciiClass? t' = some (negated, s, r') ∧ Behind r r' := by
  rcases ht with rfl | rfl
  · cases t with
    | nil => exact .inl ⟨rfl, rfl⟩
    | cons c u =>
      by_cases hc : c = ':'
      · -- The caret behind the colon is in the pattern or nowhere.
        subst hc
        have hhead : ((u ++ wholeSuffix).head? == some '^') = (u.head? == some '^') := by
          cases u <;> rfl
        have hbody : (if u.head? == some '^' then (u ++ wholeSuffix).tail else u ++ wholeSuffix) =
            (if u.head? == some '^' then u.tail else u) ++ wholeSuffix := by
          cases u with
          | nil => rfl
          | cons d u => split_ifs <;> rfl
        rw [List.cons_append, readAsciiClass?_colon, readAsciiClass?_colon, hhead, hbody]
        rcases asciiName?_append (u.head? == some '^') (if u.head? == some '^' then u.tail else u)
          with h | ⟨s, r, h, h'⟩
        · exact .inl h
        · exact .inr ⟨_, s, r, _, h, h', .inl rfl⟩
      · exact .inl ⟨readAsciiClass?_of_ne hc u, readAsciiClass?_of_ne hc _⟩
  · cases h : readAsciiClass? t' with
    | none => exact .inl ⟨rfl, rfl⟩
    | some p => exact .inr ⟨p.1, p.2.1, p.2.2, p.2.2, rfl, rfl, .inr rfl⟩

/-- An operation on sets is written by the same sign twice. -/
theorem operationAt?_cons (c d : Char) (text : Text) :
    operationAt? (c :: d :: text) =
      if c = '&' ∧ d = '&' then some (.inter, text)
      else if c = '-' ∧ d = '-' then some (.diff, text)
      else if c = '~' ∧ d = '~' then some (.symmDiff, text)
      else none := by
  unfold operationAt?
  split
  · rename_i h
    cases h
    rfl
  · rename_i h
    cases h
    rfl
  · rename_i h
    cases h
    rfl
  · rename_i hinter hdiff hsymm
    split_ifs with h h h
    · exact absurd (by rw [h.1, h.2]) (hinter text)
    · exact absurd (by rw [h.1, h.2]) (hdiff text)
    · exact absurd (by rw [h.1, h.2]) (hsymm text)
    · rfl

/-- The first half of an operation is not completed by the suffix. -/
theorem operationAt?_behind {t t' : Text} (ht : Behind t t') :
    operationAt? t = none ∧ operationAt? t' = none ∨
      ∃ op r r', operationAt? t = some (op, r) ∧ operationAt? t' = some (op, r') ∧ Behind r r' := by
  rcases ht with rfl | rfl
  · rcases t with _ | ⟨c, _ | ⟨d, u⟩⟩
    · exact .inl ⟨rfl, rfl⟩
    · -- One sign is left, and the parenthesis behind it doubles none.
      refine .inl ⟨?_, ?_⟩
      · unfold operationAt?
        split
        · rename_i h
          cases h
        · rename_i h
          cases h
        · rename_i h
          cases h
        · rfl
      · rw [List.singleton_append, wholeSuffix, operationAt?_cons]
        simp
    · rw [List.cons_append, List.cons_append, operationAt?_cons, operationAt?_cons]
      split_ifs
      · exact .inr ⟨_, _, _, rfl, rfl, .inl rfl⟩
      · exact .inr ⟨_, _, _, rfl, rfl, .inl rfl⟩
      · exact .inr ⟨_, _, _, rfl, rfl, .inl rfl⟩
      · exact .inl ⟨rfl, rfl⟩
  · cases h : operationAt? t' with
    | none => exact .inl ⟨rfl, rfl⟩
    | some p => exact .inr ⟨p.1, p.2, p.2, rfl, rfl, .inr rfl⟩

/-- What an extended pattern has after a hyphen, past blanks and a number sign among them. -/
def pastBlanks (text : Text) : Text :=
  let ahead := text.dropWhile Blank.isBlank
  if ahead.head? = some '#' then ahead.tail.dropWhile Blank.isBlank else ahead

/-- If blanks are left out, the sign after a hyphen is the first that is no blank. -/
theorem signAfterHyphen_extended (text : Text) :
    signAfterHyphen true text = ((pastBlanks text).head?).or text.head? := rfl

/-- What comes past blanks and comments stays in step. -/
theorem pastBlanks_behind {t t' : Text} (ht : Behind t t') :
    Behind (pastBlanks t) (pastBlanks t') := by
  have hblank : Blank.isBlank ')' = false := rfl
  have h := ht.dropWhile hblank
  unfold pastBlanks
  simp only
  generalize t.dropWhile Blank.isBlank = ahead at h ⊢
  generalize t'.dropWhile Blank.isBlank = ahead' at h ⊢
  cases ahead with
  | nil =>
    rcases h.nil with rfl | rfl
    · exact .inl rfl
    · exact .inr rfl
  | cons c u =>
    obtain ⟨u', rfl, hu⟩ := h.cons
    by_cases hc : c = '#'
    · -- The blanks behind the number sign are looked past as well.
      rw [if_pos (by rw [hc]; rfl), if_pos (by rw [hc]; rfl)]
      exact hu.dropWhile hblank
    · rw [if_neg (by simpa using hc), if_neg (by simpa using hc)]
      exact h

/-- What the first sign after a hyphen is, if it is neither the parenthesis of the suffix nor one
that is looked past. -/
theorem signAfterHyphen_behind (extended : Bool) {d : Char} (hd : d ≠ ')') (hsign : d ≠ '#')
    (hblank : Blank.isBlank d = false) {t t' : Text} (ht : Behind t t') :
    signAfterHyphen extended t' = some d ↔ signAfterHyphen extended t = some d := by
  have hhead : t'.head? = some d ↔ t.head? = some d := by
    rcases ht with rfl | rfl
    · cases t with
      | nil => simp [wholeSuffix, hd.symm]
      | cons c u => rfl
    · exact Iff.rfl
  cases extended with
  | false => exact hhead
  | true =>
    rw [signAfterHyphen_extended, signAfterHyphen_extended]
    have h := pastBlanks_behind ht
    cases hp : pastBlanks t with
    | cons c u =>
      rw [hp] at h
      obtain ⟨u', hu', -⟩ := h.cons
      rw [hu']
      rfl
    | nil =>
      rw [hp] at h
      rcases h.nil with hp' | hp'
      · -- Nothing but blanks is left, so the sign that is asked for is not among them.
        rw [hp']
        refine iff_of_false (by simp [wholeSuffix, hd.symm]) ?_
        intro ht
        obtain ⟨u, rfl⟩ := List.head?_eq_some_iff.mp ht
        simp [pastBlanks, hblank, hsign] at hp
      · rw [hp']
        exact hhead

/-- A character of a class is read without regard to what is behind. -/
theorem blind_readAtom (extended : Bool) : Blind (readAtom extended) := by
  intro t t' a a' r r' ht h h'
  cases t with
  | nil => simp [readAtom] at h
  | cons c u =>
    obtain ⟨u', rfl, hu⟩ := ht.cons
    rw [readAtom] at h h'
    split_ifs at h h'
    · exact blind_readEscape extended hu h h'
    · obtain ⟨rfl, rfl⟩ := Prod.mk.inj (Except.ok.inj h)
      obtain ⟨rfl, rfl⟩ := Prod.mk.inj (Except.ok.inj h')
      exact ⟨rfl, hu⟩

/-- So is a member of a class: a character, a range of them, or a class by its letter. -/
theorem blind_readMember (extended : Bool) : Blind (readMember extended) := by
  intro t t' a a' r r' ht h h'
  unfold readMember at h h'
  cases hlow : readAtom extended t with
  | error e => simp [hlow] at h
  | ok p =>
    cases hlow' : readAtom extended t' with
    | error e => simp [hlow'] at h'
    | ok p' =>
      obtain ⟨low, u⟩ := p
      obtain ⟨low', u'⟩ := p'
      obtain ⟨rfl, hu⟩ := blind_readAtom extended ht hlow hlow'
      rw [hlow] at h
      rw [hlow'] at h'
      simp only at h h'
      have hs := hu.skipSpace extended
      cases hv : skipSpace extended u with
      | nil => simp [hv] at h
      | cons c v =>
        rw [hv] at h hs
        obtain ⟨v', hv', hs⟩ := hs.cons
        rw [hv'] at h'
        simp only at h h'
        have hbracket := signAfterHyphen_behind extended (d := ']') (by decide) (by decide) rfl hs
        have hhyphen := signAfterHyphen_behind extended (d := '-') (by decide) (by decide) rfl hs
        simp only [hbracket, hhyphen] at h'
        split_ifs at h h'
        · -- No hyphen follows that makes a range.
          obtain ⟨b, hb, hr⟩ := map_eq_ok.mp h
          obtain ⟨b', hb', hr'⟩ := map_eq_ok.mp h'
          obtain ⟨rfl, rfl⟩ := Prod.mk.inj hr
          obtain ⟨rfl, rfl⟩ := Prod.mk.inj hr'
          rw [hb] at hb'
          exact ⟨(Except.ok.inj hb').symm, Behind.cons_iff.mpr hs⟩
        · -- A range, whose end comes behind the hyphen.
          cases hhigh : readAtom extended (skipSpace extended v) with
          | error e => simp [hhigh] at h
          | ok p =>
            cases hhigh' : readAtom extended (skipSpace extended v') with
            | error e => simp [hhigh'] at h'
            | ok p' =>
              obtain ⟨high, w⟩ := p
              obtain ⟨high', w'⟩ := p'
              obtain ⟨rfl, hw⟩ := blind_readAtom extended (hs.skipSpace extended) hhigh hhigh'
              rw [hhigh] at h
              rw [hhigh'] at h'
              simp only at h h'
              split at h
              · split_ifs at h with hle
                simp only [if_pos hle] at h'
                obtain ⟨rfl, rfl⟩ := Prod.mk.inj (Except.ok.inj h)
                obtain ⟨rfl, rfl⟩ := Prod.mk.inj (Except.ok.inj h')
                exact ⟨rfl, hw⟩
              · cases h

/-! ## Whole classes -/

/-- A bracketed class stops where it does whatever is behind it, and whether or not letters are
folded. If they are folded alike, the class is the same. -/
theorem readMembers_behind {same : Prop} {extended fold fold' : Bool}
    (hfold : same → fold' = fold) {n n' : Nat} {level level' : Level} {outer outer' : List Level}
    (hlevel : same → level' = level) (houter : same → outer' = outer)
    (hlen : outer'.length = outer.length) {t t' r r' : Text} {a a' : Operand} (ht : Behind t t')
    (h : readMembers extended fold n level outer t = .ok (a, r))
    (h' : readMembers extended fold' n' level' outer' t' = .ok (a', r')) :
    (same → a' = a) ∧ Behind r r' := by
  -- Each reading takes its own number of steps, so the second is generalized.
  induction n generalizing n' level level' outer outer' t t' with
  | zero => simp [readMembers] at h
  | succ n ih =>
    cases n' with
    | zero => simp [readMembers] at h'
    | succ n' =>
      unfold readMembers at h h'
      have hs := ht.skipSpace extended
      cases hu : skipSpace extended t with
      | nil => simp [hu] at h
      | cons c u =>
        rw [hu] at h hs
        obtain ⟨u', hu', hs⟩ := hs.cons
        rw [hu'] at h'
        simp only at h h'
        split_ifs at h h'
        · -- A bracket opens an ASCII class or a nested one.
          rcases readAsciiClass?_behind hs with ⟨hc, hc'⟩ | ⟨negated, s, v, v', hc, hc', hv⟩
          · rw [hc] at h
            rw [hc'] at h'
            simp only at h h'
            cases ho : readOpening extended u with
            | error e => simp [ho] at h
            | ok p =>
              cases ho' : readOpening extended u' with
              | error e => simp [ho'] at h'
              | ok p' =>
                obtain ⟨inner, v⟩ := p
                obtain ⟨inner', v'⟩ := p'
                obtain ⟨rfl, hv⟩ := blind_readOpening extended hs ho ho'
                rw [ho] at h
                rw [ho'] at h'
                exact ih (fun _ => rfl) (fun hsame => by rw [hlevel hsame, houter hsame])
                  (by simp [hlen]) hv h h'
          · rw [hc] at h
            rw [hc'] at h'
            exact ih (fun hsame => by rw [hlevel hsame, hfold hsame]) houter hlen hv h h'
        · -- A closing bracket ends the class or goes back to the one around it.
          cases outer with
          | nil =>
            obtain rfl : outer' = [] := List.eq_nil_of_length_eq_zero hlen
            obtain ⟨rfl, rfl⟩ := Prod.mk.inj (Except.ok.inj h)
            obtain ⟨rfl, rfl⟩ := Prod.mk.inj (Except.ok.inj h')
            exact ⟨fun hsame => by rw [hlevel hsame, hfold hsame], hs⟩
          | cons parent outer =>
            obtain ⟨parent', outer', rfl⟩ : ∃ p o, outer' = p :: o := by
              cases outer' with
              | nil => simp at hlen
              | cons p o => exact ⟨p, o, rfl⟩
            refine ih (fun hsame => ?_) (fun hsame => (List.cons.inj (houter hsame)).2)
              (by simpa using hlen) hs h h'
            rw [(List.cons.inj (houter hsame)).1, hlevel hsame, hfold hsame]
        · -- Anything else is an operation, or a member of the class.
          have hkeep : Behind (c :: u) (c :: u') := Behind.cons_iff.mpr hs
          rcases operationAt?_behind hkeep with ⟨ho, ho'⟩ | ⟨op, v, v', ho, ho', hv⟩
          · rw [ho] at h
            rw [ho'] at h'
            simp only at h h'
            cases hm : readMember extended (c :: u) with
            | error e => simp [hm] at h
            | ok p =>
              cases hm' : readMember extended (c :: u') with
              | error e => simp [hm'] at h'
              | ok p' =>
                obtain ⟨s, v⟩ := p
                obtain ⟨s', v'⟩ := p'
                obtain ⟨rfl, hv⟩ := blind_readMember extended hkeep hm hm'
                rw [hm] at h
                rw [hm'] at h'
                exact ih (fun hsame => by rw [hlevel hsame]) houter hlen hv h h'
          · rw [ho] at h
            rw [ho'] at h'
            exact ih (fun hsame => by rw [hlevel hsame, hfold hsame]) houter hlen hv h h'

/-- With the suffix behind and without, a class in brackets comes to the same set, if the flags are
the same, and what is left stays in step. -/
theorem read_behind {same : Prop} {f f' : Flags} (hf : f.Alike same f') {t t' r r' : Text}
    {a a' : Operand} (ht : Behind t t') (h : read f t = .ok (a, r))
    (h' : read f' t' = .ok (a', r')) :
    (same → a' = a) ∧ Behind r r' := by
  unfold read at h h'
  rw [hf.extended] at h'
  cases ho : readOpening f.extended t with
  | error e => simp [ho] at h
  | ok p =>
    cases ho' : readOpening f.extended t' with
    | error e => simp [ho'] at h'
    | ok p' =>
      obtain ⟨level, u⟩ := p
      obtain ⟨level', u'⟩ := p'
      obtain ⟨rfl, hu⟩ := blind_readOpening f.extended ht ho ho'
      rw [ho] at h
      rw [ho'] at h'
      exact readMembers_behind (fun hsame => by rw [hf.eq hsame]) (fun _ => rfl) (fun _ => rfl) rfl
        hu h h'

end SourceText.Pattern.Bracket
