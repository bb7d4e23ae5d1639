import SourceText.Proofs.Stored

/-!
# Calls that are refused

A call on a matcher sets one field of it after the other, and three calls can be refused on the way:
confining it to a range that does not fit, searching from an offset that does not, and asking about
the whole region when the pattern for whole texts cannot be read. What a call has set before it is
refused stays set. `Stored.steps` is each call as a run of such steps, in which every assignment is
a step of its own and a refusal stops the run where it is; the steps come to what the call does
(`Stored.outcome_steps`).

Two of the three are refused before anything has been set, and leave the matcher as it was. A search
from an offset has started over by then, and leaves what `reset` does. So a call that is refused can
be left out of a run, or put down as a `reset`, and nothing that comes after it is changed
(`Stored.refused_calls`).
-/

namespace SourceText.Matcher.Stored

/-- A run of steps on a matcher. One that is refused stops with what the call answers, and what has
been set until then stays. -/
abbrev Steps (α : Type) := EStateM Answer Stored α

namespace Steps

/-- Goes on if the range fits. -/
def require : Except IndexError Unit → Steps Unit
  | .ok () => pure ()
  | .error e => throw (.misfit e)

/-- Drops the current match. -/
def drop : Steps Unit := modify fun c => { c with found := none }

/-- Sets where the next search starts. -/
def resume (next : Option Nat) : Steps Unit := modify fun c => { c with nextStart := next }

/-- Confines the matcher to a part of the segment. -/
def confine (start stop : Nat) : Steps Unit := do
  require ((← get).segment.checkRange start stop)
  modify fun c => { c with region := ⟨start, stop⟩ }
  drop
  resume (some start)

/-- Starts over with the whole segment as region. -/
def reset : Steps Unit := do
  modify fun c => { c with region := ⟨0, c.segment.length⟩ }
  drop
  resume (some 0)

/-- Goes on with another pattern. -/
def usePattern (pattern : Pattern) : Steps Unit := do
  modify fun c => { c with pattern := pattern }
  modify fun c => { c with whole := none }
  drop

/-- Searches the region from an offset on. -/
def search (start : Nat) : Steps Bool := do
  let c ← get
  if start < c.region.start ∨ c.region.stop < start then
    drop
    resume none
    return false
  else
    let (text, base) := c.matcher.haystack
    match c.pattern.findFrom text (start - base) with
    | some found =>
      modify fun c => { c with base := base }
      modify fun c => { c with found := some found }
      resume (Pattern.nextSearchStart c.segment.text (found.shift base).span c.region.stop)
      return true
    | none =>
      drop
      resume none
      return false

/-- Searches for the next match. -/
def find : Steps Bool := do
  match (← get).nextStart with
  | some start => search start
  | none =>
    drop
    return false

/-- Starts over and searches from an offset on. -/
def findFrom (start : Nat) : Steps Bool := do
  reset
  let c ← get
  require (c.segment.checkRange start c.segment.length)
  search start

/-- Whether the leftmost match starts where the region does. -/
def lookingAt : Steps Bool := do
  let before ← get
  let found ← search before.region.start
  if found ∧ (← get).start? = some before.region.start then return true
  else
    drop
    resume before.nextStart
    return false

/-- The match of a whole text by the pattern that matches whole texts only. It is read when it is
first needed, and then kept. -/
def wholeMatch (text : Text) : Steps (Option Pattern.Match) := do
  let c ← get
  match c.whole with
  | some whole => return whole.findFrom text 0
  | none =>
    match Pattern.compile {} c.pattern.wholeSource with
    | .ok whole =>
      modify fun c => { c with whole := some whole }
      return whole.findFrom text 0
    | .error e => throw (.noPattern e)

/-- Whether the pattern matches the whole region. -/
def matchesRegion : Steps Bool := do
  let c ← get
  let text := Text.slice c.segment.text c.region.start c.region.stop
  let found ← match c.pattern.findFrom text 0 with
    | none => pure none
    | some found =>
      if found.span = ⟨0, Text.byteLength text⟩ then pure (some found)
      else if found.span.start = 0 then wholeMatch text
      else pure none
  modify fun c => { c with base := c.region.start }
  modify fun c => { c with found := found }
  resume (found.map fun _ => c.region.stop)
  return found.isSome

end Steps

/-- The steps of a call, and what it answers if none of them is refused. -/
def steps : Op → Steps Answer
  | .find => do return .found (← Steps.find)
  | .findFrom start => do return .found (← Steps.findFrom start)
  | .lookingAt => do return .found (← Steps.lookingAt)
  | .matchesRegion => do return .found (← Steps.matchesRegion)
  | .confine start stop => do Steps.confine start stop; return .done
  | .reset => do Steps.reset; return .done
  | .usePattern pattern => do Steps.usePattern pattern; return .done
  | .useBounds bounds => do modify fun c => { c with bounds := bounds }; return .done

/-- What has been answered when a run of steps ends, and the matcher that it leaves. -/
def outcome : EStateM.Result Answer Stored Answer → Answer × Stored
  | .ok answer c => (answer, c)
  | .error answer c => (answer, c)

variable {c c' : Stored}

/-! ## What the steps come to -/

namespace Steps

variable {α β : Type} {x : Steps α} {f : α → Steps β} {a : α} {e : Answer}

/-- Steps go on from where those before them have come. -/
theorem run_bind (h : x.run c = .ok a c') : (x >>= f).run c = (f a).run c' := by
  change (x.bind f) c = f a c'
  rw [EStateM.bind, show x c = .ok a c' from h]

/-- Nothing comes after a refusal. -/
theorem run_bind_of_refused (h : x.run c = .error e c') : (x >>= f).run c = .error e c' := by
  change (x.bind f) c = .error e c'
  rw [EStateM.bind, show x c = .error e c' from h]

/-- What steps come to can be made into an answer, and a refusal is one. -/
theorem run_return (x : Steps α) (g : α → Answer) :
    (x >>= fun a => pure (g a)).run c = match x.run c with
      | .ok a c' => .ok (g a) c'
      | .error e c' => .error e c' := by
  cases h : x.run c with
  | ok a c' => exact run_bind h
  | error e c' => exact run_bind_of_refused h

/-- Reading the state changes nothing. -/
theorem run_get : (get : Steps Stored).run c = .ok c c := rfl

/-- A check that holds changes nothing. -/
theorem run_require_ok : (require (.ok ())).run c = .ok () c := rfl

/-- A check that does not hold refuses the call, and leaves the state as it is. -/
theorem run_require_error (e : IndexError) :
    (require (.error e)).run c = .error (.misfit e) c := rfl

/-- Confining comes to a matcher with the new region, or is refused before anything has been set. -/
theorem run_confine (start stop : Nat) :
    (confine start stop).run c = match c.confine start stop with
      | .ok c' => .ok () c'
      | .error e => .error (.misfit e) c := by
  unfold confine Stored.confine
  rw [run_bind run_get]
  cases c.segment.checkRange start stop with
  | error e => exact run_bind_of_refused (run_require_error e)
  | ok u => rfl

/-- Starting over is never refused. -/
theorem run_reset : reset.run c = .ok () c.reset := rfl

/-- A search is never refused. -/
theorem run_search (start : Nat) :
    (search start).run c = .ok (c.search start).1 (c.search start).2 := by
  unfold search Stored.search
  rw [run_bind run_get]
  generalize c.matcher.haystack = seen
  obtain ⟨text, base⟩ := seen
  split_ifs with hout
  · rfl
  · simp only
    cases c.pattern.findFrom text (start - base) with
    | some found => rfl
    | none => rfl

/-- A search for the next match is never refused. -/
theorem run_find : find.run c = .ok c.find.1 c.find.2 := by
  unfold find Stored.find
  rw [run_bind run_get]
  cases hnext : c.nextStart with
  | some start => exact run_search start
  | none =>
    simp only
    rw [← hnext]
    rfl

/-- By the time that an offset is refused, the matcher has started over. -/
theorem run_findFrom (start : Nat) :
    (findFrom start).run c = match c.segment.checkRange start c.segment.length with
      | .ok () => .ok (c.reset.search start).1 (c.reset.search start).2
      | .error e => .error (.misfit e) c.reset := by
  unfold findFrom
  rw [run_bind run_reset, run_bind run_get]
  change (require (c.segment.checkRange start c.segment.length) >>= _).run c.reset = _
  cases c.segment.checkRange start c.segment.length with
  | error e => exact run_bind_of_refused (run_require_error e)
  | ok u =>
    rw [run_bind run_require_ok]
    exact run_search start

/-- A look at the start of the region is never refused. -/
theorem run_lookingAt : lookingAt.run c = .ok c.lookingAt.1 c.lookingAt.2 := by
  unfold lookingAt Stored.lookingAt
  rw [run_bind run_get, run_bind (run_search _), run_bind run_get]
  generalize c.search c.region.start = found
  obtain ⟨found, c'⟩ := found
  simp only
  split_ifs with hfound
  · rfl
  · rfl

/-- The pattern for whole texts is kept if it can be read, and nothing is if it cannot. -/
theorem run_wholeMatch (text : Text) :
    (wholeMatch text).run c = match c.wholePattern with
      | .ok (q, c') => .ok (q.findFrom text 0) c'
      | .error e => .error (.noPattern e) c := by
  unfold wholeMatch wholePattern
  rw [run_bind run_get]
  cases c.whole with
  | some q => rfl
  | none =>
    cases Pattern.compile {} c.pattern.wholeSource with
    | ok q => rfl
    | error e => rfl

/-- Reading it does not move the region. -/
theorem region_wholePattern {read : Pattern × Stored} (h : c.wholePattern = .ok read) :
    read.2.region = c.region := by
  unfold wholePattern at h
  cases hw : c.whole with
  | some q =>
    rw [hw] at h
    rw [← Except.ok.inj h]
  | none =>
    rw [hw] at h
    cases hq : Pattern.compile {} c.pattern.wholeSource with
    | error e =>
      rw [hq] at h
      cases h
    | ok q =>
      rw [hq] at h
      rw [← Except.ok.inj h]

/-- Asking for the whole region is refused if there is no pattern for whole texts. -/
theorem run_matchesRegion :
    matchesRegion.run c = match c.matchesRegion with
      | .ok (isFound, c') => .ok isFound c'
      | .error e => .error (.noPattern e) c := by
  unfold matchesRegion Stored.matchesRegion
  rw [run_bind run_get]
  simp only
  generalize Text.slice c.segment.text c.region.start c.region.stop = text
  cases c.pattern.findFrom text 0 with
  | none => rfl
  | some found =>
    simp only
    split_ifs with hspan hstart
    · rfl
    · -- What the pattern for whole texts answers, if there is one, is set as the current match.
      have hwhole := run_wholeMatch (c := c) text
      cases hw : c.wholePattern with
      | error e =>
        rw [hw] at hwhole
        exact run_bind_of_refused hwhole
      | ok read =>
        rw [hw] at hwhole
        rw [run_bind hwhole, ← region_wholePattern hw]
        rfl
    · rfl

end Steps

/-- A search from an offset starts over first, and checks the offset then. -/
theorem findFrom_eq (start : Nat) : c.findFrom start =
    match c.segment.checkRange start c.segment.length with
      | .ok () => (.ok (c.reset.search start).1, (c.reset.search start).2)
      | .error e => (.error e, c.reset) := rfl

open Steps in
/-- The steps of a call come to what it does. -/
theorem outcome_steps (op : Op) : outcome ((steps op).run c) = c.perform op := by
  cases op with
  | find =>
    rw [steps, run_return, run_find]
    rfl
  | findFrom start =>
    rw [steps, run_return, run_findFrom, perform, findFrom_eq]
    cases c.segment.checkRange start c.segment.length with
    | ok u => rfl
    | error e => rfl
  | lookingAt =>
    rw [steps, run_return, run_lookingAt]
    rfl
  | matchesRegion =>
    rw [steps, run_return, run_matchesRegion, perform]
    cases c.matchesRegion with
    | ok r => rfl
    | error e => rfl
  | confine start stop =>
    rw [steps, run_return, run_confine, perform]
    cases c.confine start stop with
    | ok c' => rfl
    | error e => rfl
  | reset => rfl
  | usePattern p => rfl
  | useBounds b => rfl

/-! ## Refusals -/

/-- The call is refused with an answer, and leaves the matcher `c'`. -/
def Refused (c : Stored) (op : Op) (answer : Answer) (c' : Stored) : Prop :=
  (steps op).run c = .error answer c'

open Steps in
/-- Confining is refused with the error of the range, before anything has been set. -/
theorem refused_confine_iff {start stop : Nat} {answer : Answer} :
    c.Refused (.confine start stop) answer c' ↔
      ∃ e, c.segment.substring start stop = .error e ∧ answer = .misfit e ∧ c' = c := by
  rw [Refused, steps, run_return, run_confine, Stored.confine, Segment.substring]
  cases c.segment.checkRange start stop with
  | ok u => simp [Except.map]
  | error e => simp [Except.map, eq_comm]

open Steps in
/-- A search is refused with the error of its offset, when the matcher has started over. -/
theorem refused_findFrom_iff {start : Nat} {answer : Answer} :
    c.Refused (.findFrom start) answer c' ↔
      ∃ e, c.segment.substringFrom start = .error e ∧ answer = .misfit e ∧ c' = c.reset := by
  rw [Refused, steps, run_return, run_findFrom, Segment.substringFrom, Segment.substring]
  cases c.segment.checkRange start c.segment.length with
  | ok u => simp [Except.map]
  | error e => simp [Except.map, eq_comm]

open Steps in
/-- The question about the whole region is refused with the error of the pattern for whole texts,
before anything has been set. -/
theorem refused_matchesRegion_iff {answer : Answer} :
    c.Refused .matchesRegion answer c' ↔
      ∃ e, c.matchesRegion = .error e ∧ answer = .noPattern e ∧ c' = c := by
  rw [Refused, steps, run_return, run_matchesRegion]
  cases c.matchesRegion with
  | ok r => simp
  | error e => simp [eq_comm]

/-- What a call can be put down as when it is refused: a search from an offset as starting over,
and any other as no call at all. -/
def insteadOf : Op → List Op
  | .findFrom _ => [.reset]
  | .find | .lookingAt | .matchesRegion | .confine _ _ | .reset | .usePattern _ | .useBounds _ => []

open Steps in
/-- A call that is refused leaves what the calls leave that stand for it. -/
theorem Refused.eq_run {op : Op} {answer : Answer} (h : c.Refused op answer c') :
    c' = c.run (insteadOf op) := by
  cases op with
  | confine start stop =>
    obtain ⟨-, -, -, heq⟩ := refused_confine_iff.mp h
    exact heq
  | matchesRegion =>
    obtain ⟨-, -, -, heq⟩ := refused_matchesRegion_iff.mp h
    exact heq
  | findFrom start =>
    obtain ⟨-, -, -, heq⟩ := refused_findFrom_iff.mp h
    exact heq
  | find =>
    rw [Refused, steps, run_return, run_find] at h
    cases h
  | lookingAt =>
    rw [Refused, steps, run_return, run_lookingAt] at h
    cases h
  | reset | usePattern _ | useBounds _ => cases h

/-- Calls on a matcher, and the same calls with others in between that are refused. Where one of
them is a search from an offset, the run without it starts over. -/
inductive WithRefused (c : Stored) : List Op → List Op → Prop where
  /-- Nothing has been called. -/
  | nil : WithRefused c [] []
  /-- Both go on with the same call. -/
  | call {ops ops' : List Op} (h : WithRefused c ops ops') (op : Op) :
    WithRefused c (ops ++ [op]) (ops' ++ [op])
  /-- A call is put in between, and refused. -/
  | refused {ops ops' : List Op} (h : WithRefused c ops ops') {op : Op} {answer : Answer}
    {c' : Stored} (hrefused : (c.run ops').Refused op answer c') :
    WithRefused c (ops ++ insteadOf op) (ops' ++ [op])

/-- Later calls are made on what the others have left. -/
theorem run_append (ops later : List Op) : c.run (ops ++ later) = (c.run ops).run later :=
  List.foldl_append

/-- Calls that are refused make no difference to those around them, save that a search from an
offset starts over. -/
theorem WithRefused.run_eq {ops ops' : List Op} (h : c.WithRefused ops ops') :
    c.run ops' = c.run ops := by
  induction h with
  | nil => rfl
  | call h op ih => rw [run_append, run_append, ih]
  | refused h hrefused ih =>
    rename_i ops ops' op answer c'
    have hleft : ((c.run ops').perform op).2 = c' := by
      rw [← outcome_steps, show (steps op).run (c.run ops') = .error answer c' from hrefused]
      rfl
    calc c.run (ops' ++ [op])
      _ = ((c.run ops').perform op).2 := run_append _ _
      _ = (c.run ops').run (insteadOf op) := by rw [hleft, hrefused.eq_run]
      _ = c.run (ops ++ insteadOf op) := by rw [ih, run_append]

/-- When the calls on a matcher are refused, and what they leave. -/
structure Refusals (c : Stored) : Prop where
  /-- The matcher cannot be confined to what cannot be cut out of its segment, for the same reason,
  and is then left as it is. -/
  confine : ∀ start stop answer c', c.Refused (.confine start stop) answer c' ↔
    ∃ e, c.segment.substring start stop = .error e ∧ answer = .misfit e ∧ c' = c
  /-- If it cannot be found out whether the whole region matches, the matcher is left as it is. -/
  matchesRegion : ∀ answer c', c.Refused .matchesRegion answer c' → c' = c
  /-- It cannot search from where nothing can be cut out of its segment, for the same reason, and
  is then left as it is after starting over, -/
  findFrom : ∀ start answer c', c.Refused (.findFrom start) answer c' ↔
    ∃ e, c.segment.substringFrom start = .error e ∧ answer = .misfit e ∧
      (steps .reset).run c = .ok .done c'
  /-- which is with the whole segment as region, no current match, and the next search from its
  start. -/
  reset : (steps .reset).run c =
    .ok .done { c with region := ⟨0, c.segment.length⟩, found := none, nextStart := some 0 }

/-- From any state calls are refused for these reasons, and leave this. -/
theorem refusals_of_state (c : Stored) : c.Refusals where
  confine _ _ _ _ := refused_confine_iff
  matchesRegion _ _ h := h.eq_run
  findFrom start answer c' := by
    have hreset : (steps .reset).run c = .ok .done c' ↔ c' = c.reset :=
      ⟨fun h => by cases h; rfl, fun h => by rw [h]; rfl⟩
    rw [refused_findFrom_iff]
    simp only [hreset]
  reset := rfl

/-- Any matcher can be kept, with the offsets of its match counted from the start. -/
theorem exists_matcher (m : Matcher) : ∃ c : Stored, c.matcher = m := by
  refine ⟨⟨m.segment, m.pattern, m.whole, m.region, m.bounds, m.found, 0, m.nextStart⟩, ?_⟩
  have hfound : (m.found.map fun f => f.shift 0) = m.found := by simp
  rw [matcher, hfound]

/-- A call that is refused leaves a matcher as it is, or as it is after starting over. It can be
left out of a run, or put down as starting over, and whatever is called afterwards finds the same
matcher. All this is so of any matcher step by step, however it is kept, and the steps come to what
the calls do. -/
theorem refused_calls :
    (∀ m : Matcher, ∃ c : Stored, c.matcher = m) ∧ ∀ c : Stored, c.Refusals ∧
      (∀ ops ops', c.WithRefused ops ops' →
        c.run ops' = c.run ops ∧ c.matcher.run ops' = c.matcher.run ops) ∧
      ∀ op, c.matcher.perform op =
        ((outcome ((steps op).run c)).1, (outcome ((steps op).run c)).2.matcher) := by
  refine ⟨exists_matcher, fun c => ⟨refusals_of_state c, fun ops ops' h => ⟨h.run_eq, ?_⟩,
    fun op => ?_⟩⟩
  · rw [run_matcher, run_matcher, h.run_eq]
  · rw [outcome_steps, perform_matcher]

/-- The pattern `a|ab` with a comment behind it, when comments are left out. Where they are not, it
has a parenthesis that is never closed. -/
def unclosedComment : Pattern :=
  ⟨"a|ab#(".toList, .alt (.literal ['a']) (.literal ['a', 'b'])⟩

/-- With a match of `a` in `"ab"`, the question about the whole text is refused, since the pattern
for whole texts cannot be read, and the match stays; a search from beyond the end starts over. -/
theorem refused_calls_unclosed_comment :
    let c := Stored.new (.ofText "ab".toList [] ⟨0, 0⟩) unclosedComment
    let ops' := [.find, .matchesRegion, .confine 1 5]
    c.run ops' = c.run [.find] ∧ ((c.run ops').groupSpan? 0) = some ⟨0, 1⟩ ∧
      c.run (ops' ++ [.findFrom 3]) = c.run [.find, .reset] := by
  intro c ops'
  obtain ⟨-, hrun, -⟩ := refused_calls.2 c
  have hfind : c.WithRefused [.find] [.find] := .call .nil .find
  have hmatches : c.WithRefused [.find] [.find, .matchesRegion] :=
    .refused hfind (refused_matchesRegion_iff.mpr ⟨.unclosedGroup, by decide, rfl, rfl⟩)
  have hconfine : c.WithRefused [.find] ops' :=
    .refused hmatches (refused_confine_iff.mpr ⟨.invalidRange 1 5 2, by decide, rfl, rfl⟩)
  have hfindFrom : c.WithRefused [.find, .reset] (ops' ++ [.findFrom 3]) :=
    .refused hconfine (refused_findFrom_iff.mpr ⟨.invalidRange 3 2 2, by decide, rfl, rfl⟩)
  exact ⟨(hrun _ _ hconfine).1, by decide, (hrun _ _ hfindFrom).1⟩

end SourceText.Matcher.Stored
