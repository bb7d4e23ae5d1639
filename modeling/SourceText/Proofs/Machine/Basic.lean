import Mathlib.Data.PFun
import Mathlib.Tactic.SplitIfs
import SourceText.Location
import SourceText.Position

/-!
# Machine runs

A machine counts in 64 bits, and signed columns have one of them for the sign. `Machine α` is a run
that comes to a value of `α`, with all that can go wrong on the way (`Fault`): a sum or a difference
that is no such number, an assertion that fails, or a branch that is there only so that something is
answered in any case. The run passes over a fault as the program does, with the number wrapped or
the answer of the branch, unless it is told to stop at faults of that kind. So a run meets a fault
when it stops there once it is told to (`Machine.Meets`), and returns a value when it comes to it
without being told anything (`Machine.Returns`). It may do neither, and go on forever.

A run that is `pure` returns its value and meets no fault (`Machine.returns_pure_iff`,
`Machine.not_meets_pure`). This is how the operations on segments are shown to be safe: what the
machine does is proved equal to `pure` of what the operation answers. Where a number may be too
great to be counted, a run comes to its value or meets that number (`Machine.ComesTo`), so if it
completes with no number out of bounds (`Machine.Completes`), that is its value. A loop
(`Machine.loop`) goes on from step to step until one of them answers, and if none ever does it never
returns (`Machine.not_returns_loop`).
-/

namespace SourceText

/-- What can go wrong in a run. -/
inductive Fault where
  /-- A sum or a difference of counts is no count. -/
  | count
  /-- A sum or a difference of signed columns is no signed column. -/
  | column
  /-- The offsets of a slice are not boundaries in order. -/
  | slice
  /-- A locator is moved backward. -/
  | backward
  /-- The column past the end of a segment is negative. -/
  | pastEnd
  /-- There is no character in front of a segment that does not start its document. -/
  | charBefore
  /-- There is no character behind a segment that does not end its document. -/
  | charAfter
  /-- A search starts outside of the region. -/
  | searchStart
  /-- What is left for a parser to skip is no slice. -/
  | remaining
  /-- There is neither a character nor an end where a parser stands. -/
  | here
  /-- A parser does not stand at an offset from which the rest could be taken. -/
  | rest
  /-- A matcher cannot be confined to what is left for a parser. -/
  | confine
  /-- The matcher of a parser is looking at a match that has no span. -/
  | token
  deriving DecidableEq, Repr

/-- Whether the fault is a number that is out of bounds. -/
def Fault.isArithmetic : Fault → Bool
  | count | column => true
  | slice | backward | pastEnd | charBefore | charAfter | searchStart | remaining | here | rest
  | confine | token => false

/-- A run that comes to a value, stops at a fault, or goes on forever. It stops at the faults that
it is told to stop at. -/
abbrev Machine (α : Type) := ReaderT (Fault → Bool) (ExceptT Fault Option) α

namespace Machine

variable {α β σ : Type}

/-- Something has gone wrong. -/
def fault (f : Fault) : Machine Unit := do
  if (← read) f then throw f

/-- What a run comes to that is told to stop at some faults, unless it goes on forever. -/
def outcome (run : Machine α) (stopAt : Fault → Bool) : Option (Except Fault α) := (run stopAt).run

/-- The run comes to the value `a`, whatever goes wrong. -/
def Returns (run : Machine α) (a : α) : Prop := run.outcome (fun _ => false) = some (.ok a)

/-- The fault `f` comes up in the run. -/
def Meets (run : Machine α) (f : Fault) : Prop :=
  run.outcome (fun g => decide (g = f)) = some (.error f)

/-- The run comes to the value `a`, and no number in it is out of bounds. -/
structure Completes (run : Machine α) (a : α) : Prop where
  /-- It returns the value. -/
  returns : run.Returns a
  /-- It meets no fault of arithmetic. -/
  inBounds : ∀ f, f.isArithmetic = true → ¬ run.Meets f

/-- The run comes to the value `a`, or meets a number that is no count. -/
structure ComesTo (run : Machine α) (sure : Prop) (a : α) : Prop where
  /-- It does nothing but come to the value, unless it meets such a number. -/
  either : run = pure a ∨ run.Meets .count
  /-- It does not meet one if `sure` holds. -/
  of_sure : sure → run = pure a

/-- A value is what a run ends with, whichever faults stop it. -/
theorem outcome_pure (a : α) (stopAt : Fault → Bool) :
    (pure a : Machine α).outcome stopAt = some (.ok a) := rfl

/-- A run that does nothing returns its value. -/
theorem returns_pure (a : α) : (pure a : Machine α).Returns a := rfl

/-- A value returns itself only. -/
theorem returns_pure_iff {a b : α} : (pure a : Machine α).Returns b ↔ a = b := by
  rw [Returns, outcome_pure, Option.some.injEq, Except.ok.injEq]

/-- A run that does nothing meets no fault. -/
theorem not_meets_pure (a : α) (f : Fault) : ¬ (pure a : Machine α).Meets f := by
  intro h
  cases Option.some.inj h

/-- A fault stops the run, or nothing is wrong if it is not one of those that do. -/
theorem fault_apply (f : Fault) (stopAt : Fault → Bool) :
    fault f stopAt = if stopAt f then some (.error f) else some (.ok ()) := by
  change (if stopAt f then _ else _ : Machine Unit) stopAt = _
  split_ifs <;> rfl

/-- A fault is passed over unless the run is told to stop at it. -/
theorem returns_fault (f : Fault) : (fault f).Returns () := fault_apply f fun _ => false

/-- A run in which something has gone wrong meets the fault, whatever is next. -/
theorem meets_fault (f : Fault) (next : Unit → Machine α) : (fault f >>= next).Meets f := by
  have h := fault_apply f fun g => decide (g = f)
  rw [if_pos (decide_eq_true rfl)] at h
  change ((fault f fun g => decide (g = f)) >>= _ : ExceptT Fault Option α) = _
  rw [h]
  rfl

/-- Two runs, one after the other, return what the second does. -/
theorem Returns.bind {run : Machine α} {next : α → Machine β} {a : α} {b : β} (h : run.Returns a)
    (hnext : (next a).Returns b) : (run >>= next).Returns b := by
  change ((run fun _ => false) >>= fun a => next a fun _ => false : ExceptT Fault Option β) = _
  rw [show run (fun _ => false) = some (.ok a) from h]
  exact hnext

/-- A fault that comes up in a run comes up whatever is next. -/
theorem Meets.bind {run : Machine α} {next : α → Machine β} {f : Fault} (h : run.Meets f) :
    (run >>= next).Meets f := by
  change ((run fun g => decide (g = f)) >>= fun a => next a _ : ExceptT Fault Option β) = _
  rw [show run (fun g => decide (g = f)) = some (.error f) from h]
  rfl

/-- A run that does nothing completes. -/
theorem completes_pure (a : α) : (pure a : Machine α).Completes a :=
  ⟨returns_pure a, fun f _ => not_meets_pure a f⟩

namespace ComesTo

variable {run : Machine α} {next : α → Machine β} {sure sure' : Prop} {a b : α} {c : β}

/-- A run that does nothing but come to a value comes to it. -/
theorem of_eq (h : run = pure a) : run.ComesTo sure a := ⟨.inl h, fun _ => h⟩

/-- A run that does nothing comes to its value. -/
protected theorem pure (a : α) : (pure a : Machine α).ComesTo sure a := of_eq rfl

/-- What is sure under a condition is sure under one that implies it. -/
theorem mono (h : run.ComesTo sure a) (himp : sure' → sure) : run.ComesTo sure' a :=
  ⟨h.either, fun hsure => h.of_sure (himp hsure)⟩

/-- Two runs come to something one after the other. -/
theorem bind (h : run.ComesTo sure a) (hnext : (next a).ComesTo sure c) :
    (run >>= next).ComesTo sure c := by
  constructor
  · rcases h.either with rfl | hmeets
    · rw [pure_bind]
      exact hnext.either
    · exact .inr hmeets.bind
  · intro hsure
    rw [h.of_sure hsure, pure_bind]
    exact hnext.of_sure hsure

/-- What a run completes with is what it comes to. -/
theorem eq_of_completes (h : run.ComesTo sure a) (hrun : run.Completes b) :
    run = pure a ∧ b = a := by
  rcases h.either with rfl | hmeets
  · exact ⟨rfl, (returns_pure_iff.mp hrun.returns).symm⟩
  · exact absurd hmeets (hrun.inBounds .count rfl)

/-- A run that comes to a value completes with it, or meets a number that is no count. -/
theorem completes_or_meets (h : run.ComesTo sure a) : run.Completes a ∨ run.Meets .count := by
  rcases h.either with rfl | hmeets
  · exact .inl (completes_pure a)
  · exact .inr hmeets

/-- A run that is sure to come to its value completes with it. -/
theorem completes (h : run.ComesTo sure a) (hsure : sure) : run.Completes a := by
  rw [h.of_sure hsure]
  exact completes_pure a

end ComesTo

/-! ## Loops -/

/-- What a step of a loop leads to: the outcome of the loop, or a next state. -/
def verdict : Except Fault (α ⊕ σ) → Except Fault α ⊕ σ
  | .ok (.inl a) => .inl (.ok a)
  | .ok (.inr s) => .inr s
  | .error f => .inl (.error f)

/-- The steps of a loop, any of which may go on forever. -/
def steps (step : σ → Machine (α ⊕ σ)) (stopAt : Fault → Bool) : σ →. Except Fault α ⊕ σ :=
  fun s => Part.ofOption (((step s).outcome stopAt).map verdict)

open scoped Classical in
/-- Repeats a step, from one state to the next, until it answers with a value. -/
noncomputable def loop (step : σ → Machine (α ⊕ σ)) (s : σ) : Machine α := fun stopAt =>
  ((steps step stopAt).fix s).toOption

open scoped Classical in
/-- A loop ends where a step says that it does. -/
theorem loop_of_inl {step : σ → Machine (α ⊕ σ)} {s : σ} {a : α} (h : step s = pure (.inl a)) :
    loop step s = pure a := by
  funext stopAt
  refine Part.mem_toOption.mpr (PFun.fix_stop ?_)
  rw [steps, h]
  exact Part.mem_some _

/-- A loop goes on from where a step has led. -/
theorem loop_of_inr {step : σ → Machine (α ⊕ σ)} {s s' : σ} (h : step s = pure (.inr s')) :
    loop step s = loop step s' := by
  funext stopAt
  have hfix : (steps step stopAt).fix s = (steps step stopAt).fix s' := by
    refine PFun.fix_fwd_eq ?_
    rw [steps, h]
    exact Part.mem_some _
  rw [loop, loop, hfix]

open scoped Classical in
/-- A loop of which every step leads to a next state never returns. -/
theorem not_returns_loop {step : σ → Machine (α ⊕ σ)}
    (hstep : ∀ s, ∃ s', (step s).Returns (.inr s')) (s : σ) (a : α) :
    ¬ (loop step s).Returns a := by
  intro h
  refine PFun.fixInduction (C := fun _ => False) (Part.mem_toOption.mp h) fun s _ ih => ?_
  obtain ⟨s', hs'⟩ := hstep s
  exact ih s' (Part.mem_ofOption.mpr (Option.mem_map_of_mem verdict hs'))

/-! ## Numbers -/

/-- A number as a count. Any other than a count is wrapped. -/
def count (n : Int) : Machine Nat :=
  if 0 ≤ n ∧ n ≤ maxCount then pure n.toNat
  else do
    fault .count
    return (n % (maxCount + 1)).toNat

/-- A number as a signed column. Any other than a signed column is wrapped. -/
def column (n : Int) : Machine Int :=
  if -(maxSignedCol + 1) ≤ n ∧ n ≤ maxSignedCol then pure n
  else do
    fault .column
    return n.bmod (maxCount + 1)

/-- The sum of two counts. -/
def add (a b : Nat) : Machine Nat := count (a + b)

/-- The difference of two counts. -/
def sub (a b : Nat) : Machine Nat := count (a - b)

/-- Half of the counts are columns too. -/
theorem maxCount_eq : maxCount = 2 * maxSignedCol + 1 := by decide

/-- A sum that is a count is that count. -/
theorem add_eq {a b : Nat} (h : a + b ≤ maxCount) : add a b = pure (a + b) := by
  rw [add, count, if_pos (by omega), ← Int.natCast_add, Int.toNat_natCast]

/-- So is a difference, unless it is below zero. -/
theorem sub_eq {a b : Nat} (hle : b ≤ a) (ha : a ≤ maxCount) : sub a b = pure (a - b) := by
  rw [sub, count, if_pos (by omega), ← Int.natCast_sub hle, Int.toNat_natCast]

/-- A sum is answered even if it is no count. -/
theorem exists_returns_add (a b : Nat) : ∃ c, (add a b).Returns c := by
  unfold add count
  split_ifs
  · exact ⟨_, returns_pure _⟩
  · exact ⟨_, (returns_fault .count).bind (returns_pure _)⟩

/-- A number that is no count is met as a fault. -/
theorem count_meets_iff (n : Int) : (count n).Meets .count ↔ n < 0 ∨ maxCount < n := by
  unfold count
  split_ifs with h
  · exact iff_of_false (not_meets_pure _ _) (by omega)
  · exact iff_of_true (meets_fault _ _) (by omega)

/-- So is a sum that is too great. -/
theorem add_meets {a b : Nat} (h : maxCount < a + b) : (add a b).Meets .count :=
  (count_meets_iff _).mpr (.inr (by omega))

/-- A sum is either counted or met as a number that is no count. -/
theorem add_comesTo (a b : Nat) : (add a b).ComesTo (a + b ≤ maxCount) (a + b) := by
  refine ⟨?_, add_eq⟩
  rcases Nat.lt_or_ge maxCount (a + b) with h | h
  · exact .inr (add_meets h)
  · exact .inl (add_eq h)

/-- So is a signed column, from the one in front of the first on. -/
theorem column_eq {n : Int} (hlow : -1 ≤ n) (hhigh : n ≤ maxSignedCol) : column n = pure n := by
  rw [column, if_pos (by omega)]

end Machine

end SourceText
