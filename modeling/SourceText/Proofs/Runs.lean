import SourceText.Proofs.Language
import SourceText.Proofs.Search

/-!
# Runs

`Runs` says that all that is to be run can take a text, step by step and character by character. It
is the language of the code (`runs_iff`), told in the steps of a search.

What a search finds is a match (`findFrom_matches`): a step gives a way no more to take than it had
before, so all that it can still take completes what it has taken to a text that the code takes
(`Heads`).
-/

namespace SourceText.Pattern

open Text (byteLength)

/-! ## Runs -/

/-- What code takes part after part. -/
def takesAll : List Code → Language
  | [] => .nothing
  | c :: rest => c.takes.andThen (takesAll rest)

/-- All that is to be run takes a text. -/
inductive Runs : List Code → Text → Text → Text → Prop where
  /-- Nothing is left to run. -/
  | done {l r : Text} : Runs [] l [] r
  /-- A character is taken. -/
  | take {chars : CharSet} {rest : List Code} {l m r : Text} {c : Char}
    (hc : chars.mem c = true) (h : Runs rest (l ++ [c]) m r) :
    Runs (.set chars :: rest) l (c :: m) r
  /-- Something is done without one. -/
  | step {codes codes' : List Code} {l m r : Text}
    (hs : Step l.getLast? (m ++ r).head? codes codes') (h : Runs codes' l m r) : Runs codes l m r

/-- What can be taken after a step could be taken before it. -/
theorem takesAll_of_step {codes codes' : List Code} {l m r : Text}
    (hs : Step l.getLast? (m ++ r).head? codes codes') (h : takesAll codes' l m r) :
    takesAll codes l m r := by
  cases hs with
  | empty | opening | closing =>
    rw [takesAll, Code.takes, Language.nothing_andThen]
    exact h
  | assertion ha => exact ⟨[], m, rfl, ⟨rfl, ha⟩, by rwa [List.append_nil]⟩
  | seq =>
    rw [takesAll, Code.takes, Language.andThen_assoc]
    exact h
  | first =>
    obtain ⟨m₁, m₂, hm, ha, hrest⟩ := h
    exact ⟨m₁, m₂, hm, .inl ha, hrest⟩
  | second =>
    obtain ⟨m₁, m₂, hm, hb, hrest⟩ := h
    exact ⟨m₁, m₂, hm, .inr hb, hrest⟩
  | again =>
    -- One round and some more are some rounds.
    rw [takesAll, takesAll, Code.takes, ← Language.andThen_assoc, Language.andThen_roundsOf] at h
    obtain ⟨m₁, m₂, hm, ⟨k, -, hk⟩, hrest⟩ := h
    exact ⟨m₁, m₂, hm, ⟨k, trivial, hk⟩, hrest⟩
  | leave => exact ⟨[], m, rfl, ⟨0, trivial, rfl⟩, by rwa [List.append_nil]⟩

/-- Code that takes a text can be run over it. -/
theorem Runs.cons (c : Code) {rest : List Code} {l m₁ m₂ r : Text} (h : c.takes l m₁ (m₂ ++ r))
    (hrest : Runs rest (l ++ m₁) m₂ r) : Runs (c :: rest) l (m₁ ++ m₂) r := by
  induction c generalizing rest l m₁ m₂ with
  | empty =>
    obtain rfl : m₁ = [] := h
    rw [List.append_nil] at hrest
    exact .step .empty hrest
  | set chars =>
    obtain ⟨c, hc, rfl⟩ := h
    exact .take hc hrest
  | assertion a =>
    obtain ⟨rfl, ha⟩ := h
    rw [List.append_nil] at hrest
    exact .step (.assertion ha) hrest
  | opening =>
    obtain rfl : m₁ = [] := h
    rw [List.append_nil] at hrest
    exact .step .opening hrest
  | closing index =>
    obtain rfl : m₁ = [] := h
    rw [List.append_nil] at hrest
    exact .step .closing hrest
  | seq a b iha ihb =>
    obtain ⟨ma, mb, rfl, ha, hb⟩ := h
    rw [← List.append_assoc] at hrest
    rw [List.append_assoc]
    refine .step .seq (iha ?_ (ihb hb hrest))
    rwa [List.append_assoc]
  | fork n a b iha ihb =>
    rcases h with ha | hb
    · exact .step .first (iha ha hrest)
    · exact .step .second (ihb hb hrest)
  | loop n body greedy ih =>
    obtain ⟨k, -, hk⟩ := h
    -- One round after the other.
    induction k generalizing l m₁ with
    | zero =>
      obtain rfl : m₁ = [] := hk
      rw [List.append_nil] at hrest
      exact .step .leave hrest
    | succ k ihk =>
      obtain ⟨ma, mb, rfl, hbody, hk⟩ := hk
      rw [← List.append_assoc] at hrest
      rw [List.append_assoc]
      refine .step .again (ih ?_ (ihk hrest hk))
      rwa [List.append_assoc]

/-- Steps and characters take the language of the code, and nothing else. -/
theorem runs_iff {codes : List Code} {l m r : Text} : Runs codes l m r ↔ takesAll codes l m r := by
  constructor
  · intro h
    induction h with
    | done => rfl
    | take hc _ ih => exact ⟨[_], _, rfl, ⟨_, hc, rfl⟩, ih⟩
    | step hs _ ih => exact takesAll_of_step hs ih
  · intro h
    induction codes generalizing l m with
    | nil =>
      obtain rfl : m = [] := h
      exact .done
    | cons c rest ih =>
      obtain ⟨m₁, m₂, rfl, hc, hrest⟩ := h
      exact .cons c hc (ih hrest)

/-- In particular the code of a pattern runs over what it takes. -/
theorem runs_singleton_iff {c : Code} {l m r : Text} : Runs [c] l m r ↔ c.takes l m r := by
  rw [runs_iff, takesAll, takesAll, Language.andThen_nothing]

/-- The place in a text between what comes before and what comes after. -/
def Place.between (l r : Text) : Place := ⟨l.getLast?, r.head?, byteLength l⟩

/-- A scan judges what it has found at a place, and goes on with the next character unless no way is
left. -/
theorem scan_cons (code : Code) (ways : List (List Code × Trace)) (best : Option Match) (l : Text)
    (c : Char) (rest : Text) {front : Front}
    (hfront : Front.gather (.between l (c :: rest)) code best ways = front) :
    scan code ways best l.getLast? (byteLength l) (c :: rest) =
      if (front.found.or best).isSome && (front.advance c).isEmpty then front.found.or best
      else scan code (front.advance c) (front.found.or best) (l ++ [c]).getLast?
        (byteLength (l ++ [c])) rest := by
  rw [← hfront, List.getLast?_concat, Text.byteLength_append]
  rfl

/-! ## What is found is a match -/

/-- Code takes what a span covers, in the text around it. -/
def Code.Taken (code : Code) (text : Text) (s : Span) : Prop :=
  ∃ l m r, text = l ++ m ++ r ∧ byteLength l = s.start ∧ byteLength (l ++ m) = s.stop ∧
    code.takes l m r

/-- A way that stands between `l` and `r`: with what is still to be run, the code takes what lies
behind the start of the way. -/
def Heads (code : Code) (l r : Text) (codes : List Code) (t : Trace) : Prop :=
  ∃ l₀ m₀, l = l₀ ++ m₀ ∧ byteLength l₀ = t.start ∧
    ∀ m r', r = m ++ r' → Runs codes l m r' → code.takes l₀ (m₀ ++ m) r'

/-- Ways that wait head for a match of the code, and a match is one. -/
structure Front.Heads (code : Code) (l r : Text) (f : Front) : Prop where
  /-- The ways that wait. -/
  threads : ∀ t ∈ f.threads, Pattern.Heads code l r (.set t.chars :: t.rest) t.trace
  /-- The match that ends here. -/
  found : ∀ m, f.found = some m → code.Taken (l ++ r) m.span

/-- Each step keeps that a way can still be completed. -/
theorem keeps_heads (code : Code) (l r : Text) :
    Keeps (.between l r) (Heads code l r) (Front.Heads code l r) where
  step := by
    rintro codes codes' t hs ⟨l₀, m₀, hl, hstart, htakes⟩
    refine ⟨l₀, m₀, hl, hstart, ?_⟩
    rintro m r' rfl hruns
    exact htakes m r' rfl (.step hs hruns)
  opening ht := ht
  closing := by
    rintro codes t index ht
    unfold Trace.closing
    cases t.opened <;> exact ht
  wait := by
    rintro f chars rest t ⟨hthreads, hfound⟩ ht
    unfold Front.wait
    split_ifs
    · exact ⟨hthreads, hfound⟩
    · exact ⟨List.forall_mem_cons.mpr ⟨ht, hthreads⟩, hfound⟩
  finish := by
    rintro f t ⟨hthreads, hfound⟩ ⟨l₀, m₀, rfl, hstart, htakes⟩
    refine ⟨hthreads, forall_or hfound ?_⟩
    -- The way has taken all between its start and the place.
    rintro _ ⟨⟩
    have hall := htakes [] r rfl .done
    rw [List.append_nil] at hall
    exact ⟨l₀, m₀, r, rfl, hstart, rfl, hall⟩
  enter number hf := ⟨hf.threads, hf.found⟩

/-- A way that has taken a character heads for the same match. -/
theorem Heads.take {code : Code} {l r : Text} {chars : CharSet} {rest : List Code} {t : Trace}
    {c : Char} (h : Heads code l (c :: r) (.set chars :: rest) t) (hc : chars.mem c = true) :
    Heads code (l ++ [c]) r rest t := by
  obtain ⟨l₀, m₀, rfl, hstart, htakes⟩ := h
  refine ⟨l₀, m₀ ++ [c], by rw [List.append_assoc], hstart, ?_⟩
  rintro m r' rfl hruns
  have hall := htakes (c :: m) r' rfl (.take hc hruns)
  rwa [List.append_assoc]

/-- All that is found at a place can be completed. -/
theorem Front.gather_heads {code : Code} {l r : Text} {ways : List (List Code × Trace)}
    (best : Option Match) (hways : ∀ way ∈ ways, Pattern.Heads code l r way.1 way.2) :
    (Front.gather (.between l r) code best ways).Heads code l r := by
  refine (keeps_heads code l r).gather ⟨by simp, by simp⟩ hways ?_
  exact ⟨l, [], (List.append_nil l).symm, rfl, fun m r' _ hruns => runs_singleton_iff.mp hruns⟩

/-- What a search finds, the code takes. -/
theorem scan_taken {code : Code} {l rest : Text} {ways : List (List Code × Trace)}
    {best : Option Match} {m : Match} (hways : ∀ way ∈ ways, Heads code l rest way.1 way.2)
    (hbest : ∀ b, best = some b → code.Taken (l ++ rest) b.span)
    (h : scan code ways best l.getLast? (byteLength l) rest = some m) :
    code.Taken (l ++ rest) m.span := by
  -- What has been searched moves from `rest` to `l`, so the text stays `l ++ rest`.
  induction rest generalizing l ways best with
  | nil => exact forall_or (Front.gather_heads best hways).found hbest m h
  | cons c rest ih =>
    have hfront := Front.gather_heads best hways
    have hbest' := forall_or hfront.found hbest
    have hcut : l ++ c :: rest = l ++ [c] ++ rest := by simp
    rw [scan_cons code ways best l c rest rfl] at h
    split_ifs at h
    · exact hbest' m h
    · rw [hcut] at hbest' ⊢
      refine ih ?_ hbest' h
      intro way hway
      obtain ⟨t, ht, hc, rfl⟩ := Front.mem_advance.mp hway
      exact (hfront.threads t ht).take hc

/-- What a pattern finds is a match. -/
theorem findFrom_matches {p : Pattern} {text : Text} {n : Nat} {m : Match}
    (h : p.findFrom text n = some m) : p.Matches text m.span := by
  obtain ⟨l, r, rfl, rfl⟩ := Text.isBoundary_iff.mp (isBoundary_of_findFrom h)
  rw [findFrom_append] at h
  have htaken := scan_taken (by simp) (by simp) h
  unfold Code.Taken at htaken
  rw [takes_code] at htaken
  exact htaken

end SourceText.Pattern
