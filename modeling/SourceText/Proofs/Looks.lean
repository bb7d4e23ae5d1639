import SourceText.Proofs.Stored

/-!
# Looks that fail

A matcher can be asked at any time whether a match starts where its region does. A look that fails
drops the current match and changes nothing else. Nothing that is called later depends on a match
that is no longer there: every call does the same with the matcher that has forgotten its match
(`perform_forget`). So two runs of the same calls, of which one has such looks in between, stay in
the same state but for a match that the one may have forgotten; and a call that sets the match anew,
or drops it, brings them together (`run_undisturbed`).

The matcher in the form that is kept goes the same way, although a look that fails leaves the start
of another text in it (`Stored.run_matcher`).
-/

namespace SourceText.Matcher

variable {m m' : Matcher}

/-! ## Nothing depends on the current match -/

/-- The matcher without its current match. -/
def forget (m : Matcher) : Matcher := { m with found := none }

/-- What is forgotten once is forgotten. -/
@[simp] theorem forget_forget : m.forget.forget = m.forget := rfl

/-- A look that fails drops the current match and changes nothing else. -/
theorem lookingAt_of_failed (h : m.lookingAt.1 = false) : m.lookingAt.2 = m.forget := by
  rcases m.lookingAt_cases with heq | ⟨f, -, -, heq⟩
  · rw [heq]
    rfl
  · rw [heq] at h
    cases h

/-- The segment stays. -/
@[simp] theorem forget_segment : m.forget.segment = m.segment := rfl

/-- The pattern stays. -/
@[simp] theorem forget_pattern : m.forget.pattern = m.pattern := rfl

/-- The region stays. -/
@[simp] theorem forget_region : m.forget.region = m.region := rfl

/-- The pattern that matches whole texts only does not depend on the current match. -/
theorem wholePattern_forget :
    m.forget.wholePattern = m.wholePattern.map fun (q, m') => (q, m'.forget) :=
  wholePattern_map forget rfl rfl fun _ => rfl

/-- Whether the whole region matches does not depend on the current match. -/
theorem matchesRegion_forget : m.forget.matchesRegion = m.matchesRegion := by
  unfold matchesRegion
  simp only [forget_segment, forget_region, forget_pattern, wholePattern_forget]
  cases m.pattern.findFrom (Text.slice m.segment.text m.region.start m.region.stop) 0 with
  | none => rfl
  | some f =>
    simp only
    split_ifs
    · rfl
    · -- What the pattern for whole texts decides takes the place of the current match.
      cases m.wholePattern with
      | error e => rfl
      | ok found => rfl
    · rfl

/-- The call leaves the current match as it is: only the bounds change, or the call is refused. -/
def Op.KeepsMatch (m : Matcher) : Op → Prop
  | .useBounds _ => True
  | .confine start stop => ∃ e, m.confine start stop = .error e
  | .matchesRegion => ∃ e, m.matchesRegion = .error e
  | .find | .findFrom _ | .lookingAt | .reset | .usePattern _ => False

/-- A call on a matcher that has forgotten its match does the same as on one that has not, but that
the match is still forgotten if the call leaves it as it is. -/
theorem perform_forget (op : Op) :
    m.forget.perform op = m.perform op ∨
      op.KeepsMatch m ∧ m.forget.perform op = ((m.perform op).1, (m.perform op).2.forget) := by
  cases op with
  | find | findFrom _ | lookingAt | reset | usePattern _ => exact .inl rfl
  | useBounds b => exact .inr ⟨trivial, rfl⟩
  | confine start stop =>
    have hconfine : m.forget.confine start stop = m.confine start stop := rfl
    simp only [perform, hconfine]
    cases h : m.confine start stop with
    | error e => exact .inr ⟨⟨e, h⟩, rfl⟩
    | ok m' => exact .inl rfl
  | matchesRegion =>
    simp only [perform, matchesRegion_forget]
    cases h : m.matchesRegion with
    | error e => exact .inr ⟨⟨e, h⟩, rfl⟩
    | ok r => exact .inl rfl

/-! ## Two runs -/

/-- Calls on a matcher, and the same calls with looks in between that fail, up to some point. -/
inductive Interleaves (m : Matcher) : List Op → List Op → Prop where
  /-- Nothing has been called. -/
  | nil : Interleaves m [] []
  /-- Both go on with the same call. -/
  | call {ops ops' : List Op} (h : Interleaves m ops ops') (op : Op) :
    Interleaves m (ops ++ [op]) (ops' ++ [op])
  /-- A look is put in between, and fails. -/
  | look {ops ops' : List Op} (h : Interleaves m ops ops')
    (hfails : (m.run ops').lookingAt.1 = false) : Interleaves m ops (ops' ++ [.lookingAt])

/-- The matcher `m'` is `m` but for a match that may have been forgotten, and it cannot be told from
`m` but by that match. -/
structure Undisturbed (m m' : Matcher) : Prop where
  /-- Every call answers the same. -/
  answer : ∀ op, (m'.perform op).1 = (m.perform op).1
  /-- The region is the same, -/
  region : m'.region = m.region
  /-- and so are the bounds, -/
  bounds : m'.bounds = m.bounds
  /-- and the place where the next search starts. -/
  nextStart : m'.nextStart = m.nextStart
  /-- So is the current match, or else there is none. -/
  found : m'.found = m.found ∨ m'.found = none
  /-- From any call on that sets the match anew or drops it, all is the same. -/
  settles : ∀ op later, ¬ op.KeepsMatch m → m'.run (op :: later) = m.run (op :: later)

/-- The last call is made on what those before it have left. -/
theorem run_concat (ops : List Op) (op : Op) :
    m.run (ops ++ [op]) = ((m.run ops).perform op).2 := by
  simp [run]

/-- Looks that fail leave nothing but a match that may have been forgotten. -/
theorem Interleaves.run_eq {ops ops' : List Op} (h : m.Interleaves ops ops') :
    m.run ops' = m.run ops ∨ m.run ops' = (m.run ops).forget := by
  induction h with
  | nil => exact .inl rfl
  | call h op ih =>
    rw [run_concat, run_concat]
    rcases ih with heq | heq
    · exact .inl (by rw [heq])
    · rw [heq]
      rcases perform_forget op with hsame | ⟨-, hsame⟩
      · exact .inl (by rw [hsame])
      · exact .inr (by rw [hsame])
  | look h hfails ih =>
    rw [run_concat]
    change (m.run _).lookingAt.2 = _ ∨ (m.run _).lookingAt.2 = _
    rw [lookingAt_of_failed hfails]
    rcases ih with heq | heq
    · exact .inr (by rw [heq])
    · exact .inr (by rw [heq, forget_forget])

/-- A matcher that has forgotten its current match, or not even that, goes on undisturbed. -/
theorem undisturbed_of_eq (h : m' = m ∨ m' = m.forget) : m.Undisturbed m' := by
  rcases h with rfl | rfl
  · exact ⟨fun _ => rfl, rfl, rfl, rfl, .inl rfl, fun _ _ _ => rfl⟩
  · refine ⟨fun op => ?_, rfl, rfl, rfl, .inr rfl, fun op later hop => ?_⟩
    · rcases perform_forget (m := m) op with h | ⟨-, h⟩
      · rw [h]
      · rw [h]
    · rcases perform_forget (m := m) op with h | ⟨hkeeps, -⟩
      · simp only [run, List.foldl_cons, h]
      · exact absurd hkeeps hop

/-- Looks that fail change nothing that is seen later. At any point of a run, a look that fails
drops the current match and nothing else; and a run with such looks in between is in the same state
as the run without them, but for a match that was current when a look failed. The same holds of the
matcher as it is kept, which answers what the run without looks answers. -/
theorem run_undisturbed {ops ops' : List Op} (h : m.Interleaves ops ops') :
    (m.run ops).Undisturbed (m.run ops') ∧
      ((m.run ops').lookingAt.1 = false →
        (m.run ops').lookingAt.2 = { m.run ops' with found := none }) ∧
      ∀ c : Stored, c.matcher = m →
        (c.run ops').matcher = m.run ops' ∧
          (∀ index, (c.run ops').groupSpan? index = (m.run ops').groupSpan? index) ∧
          ∀ op, ((c.run ops').perform op).1 = ((m.run ops).perform op).1 := by
  have hundisturbed := undisturbed_of_eq h.run_eq
  refine ⟨hundisturbed, lookingAt_of_failed, ?_⟩
  rintro c rfl
  have hrun := c.run_matcher ops'
  refine ⟨hrun.symm, fun index => ?_, fun op => ?_⟩
  · rw [hrun, Stored.groupSpan?_matcher]
  · rw [← hundisturbed.answer op, hrun, Stored.perform_matcher]

/-- The pattern `b`. -/
def letterB : Pattern := ⟨"b".toList, .literal ['b']⟩

/-- A look under other bounds drops the match and leaves another base, and the next search starts
where it would have. -/
theorem undisturbed_other_base :
    let s := Segment.ofText "xabb".toList [] ⟨0, 0⟩
    let ops := [.confine 1 4, .find, .useBounds .transparent]
    let ops' := [.confine 1 4, .lookingAt, .find, .useBounds .transparent, .lookingAt]
    let m := s.matcher letterB
    let c := Stored.new s letterB
    (m.run ops).Undisturbed (m.run ops') ∧ (c.run ops').matcher = m.run ops' ∧
      (m.run ops').nextStart = some 3 ∧ (c.run ops).base = 1 ∧ (c.run ops').base = 0 := by
  intro s ops ops' m c
  have hfirst : m.Interleaves [.confine 1 4] [.confine 1 4, .lookingAt] :=
    @Interleaves.look _ _ [.confine 1 4] (.call .nil _) (by decide)
  have hlooks : m.Interleaves ops ops' :=
    @Interleaves.look _ _ [.confine 1 4, .lookingAt, .find, .useBounds .transparent]
      (.call (.call hfirst .find) (.useBounds .transparent)) (by decide)
  obtain ⟨hundisturbed, -, hkept⟩ := run_undisturbed hlooks
  exact ⟨hundisturbed, (hkept c (Stored.matcher_new s letterB)).1, by decide, by decide, by decide⟩

end SourceText.Matcher
