import Mathlib.Tactic.SplitIfs
import SourceText.Pattern.Basic

/-!
# What a pattern takes

A `Language` says which texts can be taken between a text before and a text after, the only things
that an assertion can ask about. `Node.takes` is the language of a tree, read off its constructors:
it knows nothing of searches, preferences or groups. `Code.takes` is that of the code which a search
runs.

`Node.code` writes code with the language of the tree (`Node.written_code`). Most of that is
`Code.written_times` and `Code.written_upTo`, where rounds are written out. The same induction shows
what a search relies on when it enters no fork and no loop twice at a place: a number stands for all
that is left to run (`Code.Numbered`). The body of a loop and the loop after the first round share
their numbers, and what is left to run from them is the same in both.
-/

namespace SourceText.Pattern

/-- Which texts can be taken, between a text before and a text after. -/
abbrev Language := Text → Text → Text → Prop

namespace Language

/-- Takes nothing. -/
def nothing : Language := fun _ m _ => m = []

/-- Takes one text. -/
def exactly (text : Text) : Language := fun _ m _ => m = text

/-- Takes one character of a set. -/
def oneOf (s : CharSet) : Language := fun _ m _ => ∃ c, s.mem c = true ∧ m = [c]

/-- Takes nothing, and that only where an assertion holds. -/
def holding (a : Assertion) : Language := fun l m r =>
  m = [] ∧ a.holds l.getLast? r.head? = true

/-- Takes a text in two parts. -/
def andThen (R S : Language) : Language := fun l m r =>
  ∃ m₁ m₂, m = m₁ ++ m₂ ∧ R l m₁ (m₂ ++ r) ∧ S (l ++ m₁) m₂ r

/-- Takes what one of two languages takes. -/
def either (R S : Language) : Language := fun l m r => R l m r ∨ S l m r

/-- Takes a text in a number of rounds. -/
def rounds (R : Language) : Nat → Language
  | 0 => nothing
  | k + 1 => R.andThen (rounds R k)

/-- Takes a text in one of the numbers of rounds that are allowed. -/
def roundsOf (R : Language) (allowed : Nat → Prop) : Language := fun l m r =>
  ∃ k, allowed k ∧ R.rounds k l m r

variable {R S T : Language}

/-- Languages that take the same texts everywhere are the same. -/
theorem ext (h : ∀ l m r, R l m r ↔ S l m r) : R = S :=
  funext fun l => funext fun m => funext fun r => propext (h l m r)

/-- Taking nothing first makes no difference. -/
@[simp] theorem nothing_andThen (R : Language) : nothing.andThen R = R := by
  apply ext
  intro l m r
  constructor
  · rintro ⟨m₁, m₂, rfl, rfl, h⟩
    rwa [List.append_nil] at h
  · intro h
    exact ⟨[], m, rfl, rfl, by rwa [List.append_nil]⟩

/-- Taking nothing behind makes no difference. -/
@[simp] theorem andThen_nothing (R : Language) : R.andThen nothing = R := by
  apply ext
  intro l m r
  constructor
  · rintro ⟨m₁, m₂, rfl, h, rfl⟩
    rwa [List.append_nil]
  · intro h
    exact ⟨m, [], (List.append_nil m).symm, h, rfl⟩

/-- Of three parts, it does not matter which two are put together first. -/
theorem andThen_assoc (R S T : Language) :
    (R.andThen S).andThen T = R.andThen (S.andThen T) := by
  apply ext
  intro l m r
  constructor
  · rintro ⟨_, m₃, rfl, ⟨m₁, m₂, rfl, hR, hS⟩, hT⟩
    refine ⟨m₁, m₂ ++ m₃, List.append_assoc _ _ _, ?_, m₂, m₃, rfl, hS, ?_⟩
    · rwa [List.append_assoc]
    · rwa [List.append_assoc]
  · rintro ⟨m₁, _, rfl, hR, m₂, m₃, rfl, hS, hT⟩
    refine ⟨m₁ ++ m₂, m₃, (List.append_assoc _ _ _).symm, ⟨m₁, m₂, rfl, ?_, hS⟩, ?_⟩
    · rwa [List.append_assoc] at hR
    · rwa [List.append_assoc] at hT

/-- Two given texts, one after the other, are one given text. -/
theorem exactly_andThen_exactly (s t : Text) :
    (exactly s).andThen (exactly t) = exactly (s ++ t) := by
  apply ext
  intro l m r
  constructor
  · rintro ⟨_, _, hm, rfl, rfl⟩
    exact hm
  · intro h
    exact ⟨s, t, h, rfl, rfl⟩

/-- The set of one character holds that one. -/
theorem oneOf_single (c : Char) : oneOf (.single c) = exactly [c] := by
  have hmem : ∀ d, (CharSet.single c).mem d = true ↔ d = c := by
    intro d
    have hsingle : (CharSet.single c).mem d = true ↔ c.toNat = d.toNat := by
      simp [CharSet.mem, CharSet.single, CharSet.holds]
      omega
    rw [hsingle]
    constructor
    · intro h
      exact (Char.toNat_inj.mp h).symm
    · rintro rfl
      rfl
  apply ext
  intro l m r
  constructor
  · rintro ⟨d, hd, rfl⟩
    obtain rfl := (hmem d).mp hd
    rfl
  · rintro rfl
    exact ⟨c, (hmem c).mpr rfl, rfl⟩

/-- Rounds can be taken in two lots. -/
theorem rounds_add (R : Language) (j k : Nat) :
    R.rounds (j + k) = (R.rounds j).andThen (R.rounds k) := by
  induction j with
  | zero => rw [Nat.zero_add, rounds, nothing_andThen]
  | succ j ih => rw [Nat.add_right_comm, rounds, ih, rounds, andThen_assoc]

/-- One round after others. -/
theorem rounds_succ_right (R : Language) (k : Nat) :
    R.rounds (k + 1) = (R.rounds k).andThen R := by
  rw [rounds_add]
  simp [rounds]

/-- Some rounds, and then one of the numbers of rounds that are allowed. -/
theorem rounds_andThen_roundsOf (R : Language) (j : Nat) (allowed : Nat → Prop) :
    (R.rounds j).andThen (R.roundsOf allowed) =
      R.roundsOf fun k => ∃ i, allowed i ∧ k = j + i := by
  apply ext
  intro l m r
  constructor
  · rintro ⟨m₁, m₂, hm, hj, i, hi, hrounds⟩
    refine ⟨j + i, ⟨i, hi, rfl⟩, ?_⟩
    rw [rounds_add]
    exact ⟨m₁, m₂, hm, hj, hrounds⟩
  · rintro ⟨_, ⟨i, hi, rfl⟩, hrounds⟩
    rw [rounds_add] at hrounds
    obtain ⟨m₁, m₂, hm, hj, hrounds⟩ := hrounds
    exact ⟨m₁, m₂, hm, hj, i, hi, hrounds⟩

/-- Either of two kinds of numbers of rounds. -/
theorem either_roundsOf (R : Language) (P Q : Nat → Prop) :
    (R.roundsOf P).either (R.roundsOf Q) = R.roundsOf fun k => P k ∨ Q k := by
  apply ext
  intro l m r
  constructor
  · rintro (⟨k, hk, h⟩ | ⟨k, hk, h⟩)
    · exact ⟨k, .inl hk, h⟩
    · exact ⟨k, .inr hk, h⟩
  · rintro ⟨k, hk | hk, h⟩
    · exact .inl ⟨k, hk, h⟩
    · exact .inr ⟨k, hk, h⟩

/-- Only the numbers of rounds that are allowed matter. -/
theorem roundsOf_congr (R : Language) {P Q : Nat → Prop} (h : ∀ k, P k ↔ Q k) :
    R.roundsOf P = R.roundsOf Q := by
  have hPQ : P = Q := funext fun k => propext (h k)
  rw [hPQ]

/-- If no rounds are allowed but none at all, nothing is taken. -/
theorem roundsOf_zero (R : Language) : R.roundsOf (· = 0) = nothing := by
  apply ext
  intro l m r
  constructor
  · rintro ⟨_, rfl, h⟩
    exact h
  · intro h
    exact ⟨0, rfl, h⟩

/-- One round more than is allowed. -/
theorem andThen_roundsOf (R : Language) (allowed : Nat → Prop) :
    R.andThen (R.roundsOf allowed) = R.roundsOf fun k => ∃ i, allowed i ∧ k = i + 1 := by
  apply ext
  intro l m r
  constructor
  · rintro ⟨m₁, m₂, hm, hR, i, hi, hrounds⟩
    exact ⟨i + 1, ⟨i, hi, rfl⟩, m₁, m₂, hm, hR, hrounds⟩
  · rintro ⟨_, ⟨i, hi, rfl⟩, m₁, m₂, hm, hR, hrounds⟩
    exact ⟨m₁, m₂, hm, hR, i, hi, hrounds⟩

/-- The order of alternatives says which is preferred, and makes no difference to what is taken. -/
theorem either_comm (R S : Language) : R.either S = S.either R :=
  ext fun _ _ _ => or_comm

end Language

/-- What a tree takes. A greatest count that is less than the least does not count. -/
def Node.takes : Node → Language
  | empty => .nothing
  | literal text => .exactly text
  | set s => .oneOf s
  | assertion a => .holding a
  | group _ _ body => body.takes
  | seq a b => a.takes.andThen b.takes
  | alt a b => a.takes.either b.takes
  | rep body min max _ =>
    body.takes.roundsOf fun k => min ≤ k ∧ ∀ n, max = some n → k ≤ Nat.max n min

namespace Code

/-- What code takes. -/
def takes : Code → Language
  | empty | opening | closing _ => .nothing
  | set s => .oneOf s
  | assertion a => .holding a
  | seq a b => a.takes.andThen b.takes
  | fork _ a b => a.takes.either b.takes
  | loop _ body _ => body.takes.roundsOf fun _ => True

/-- Every fork and every loop stands under its number with all that is to be run from it on. -/
def Numbered (table : Nat → List Code) : Code → (rest : List Code) → Prop
  | empty, _ | set _, _ | assertion _, _ | opening, _ | closing _, _ => True
  | seq a b, rest => a.Numbered table (b :: rest) ∧ b.Numbered table rest
  | fork n a b, rest =>
    table n = fork n a b :: rest ∧ a.Numbered table rest ∧ b.Numbered table rest
  | loop n body greedy, rest =>
    table n = loop n body greedy :: rest ∧ body.Numbered table (loop n body greedy :: rest)

/-- The entries of a table from `i` on and below `j` can be such that a property holds, whatever the
others are. -/
def Settled (i j : Nat) (P : (Nat → List Code) → Prop) : Prop :=
  ∃ table : Nat → List Code, ∀ table' : Nat → List Code,
    (∀ n, i ≤ n → n < j → table' n = table n) → P table'

/-- Code that takes a language, with the number after those that it was given. They are the ones
from `i` on. -/
structure Written (i : Nat) (R : Language) (w : Code × Nat) : Prop where
  /-- No number is given back. -/
  le : i ≤ w.2
  /-- It takes the language. -/
  takes : w.1.takes = R
  /-- Whatever is to be run after it, its numbers can stand for what is left to run from there. -/
  numbered : ∀ rest, Settled i w.2 (w.1.Numbered · rest)

namespace Settled

variable {i j k : Nat} {P Q : (Nat → List Code) → Prop}

/-- What is settled about a table settles what follows from it. -/
theorem imp (h : Settled i j P) (hPQ : ∀ table, P table → Q table) : Settled i j Q := by
  obtain ⟨table, htable⟩ := h
  exact ⟨table, fun table' heq => hPQ _ (htable table' heq)⟩

/-- What holds of all tables. -/
theorem of_forall (h : ∀ table, P table) : Settled i j P :=
  ⟨fun _ => [], fun table' _ => h table'⟩

/-- One entry. -/
theorem entry (n : Nat) (codes : List Code) : Settled n (n + 1) (· n = codes) :=
  ⟨fun _ => codes, fun _ heq => heq n (Nat.le_refl _) (Nat.lt_succ_self _)⟩

/-- Two properties that depend on different entries. -/
theorem and (hP : Settled i j P) (hQ : Settled j k Q) (hij : i ≤ j) (hjk : j ≤ k) :
    Settled i k fun table => P table ∧ Q table := by
  obtain ⟨tableP, hP⟩ := hP
  obtain ⟨tableQ, hQ⟩ := hQ
  refine ⟨fun n => if n < j then tableP n else tableQ n, ?_⟩
  intro table heq
  constructor
  · apply hP
    intro n hi hj
    simp only [heq n hi (by omega), if_pos hj]
  · apply hQ
    intro n hj hk
    simp only [heq n (Nat.le_trans hij hj) hk, if_neg (Nat.not_lt.mpr hj)]

end Settled

/-! ## Writing code -/

namespace Written

variable {i j k : Nat} {R S : Language} {a b : Code}

/-- Code without forks and loops needs no number. -/
theorem plain (htakes : a.takes = R) (h : ∀ table rest, a.Numbered table rest) :
    Written i R (a, i) :=
  ⟨Nat.le_refl _, htakes, fun rest => .of_forall fun table => h table rest⟩

/-- Code that is written one behind the other takes a text in two parts. -/
theorem seq (ha : Written i R (a, j)) (hb : Written j S (b, k)) :
    Written i (R.andThen S) (.seq a b, k) where
  le := Nat.le_trans ha.le hb.le
  takes := by rw [Code.takes, ha.takes, hb.takes]
  numbered rest := (ha.numbered (b :: rest)).and (hb.numbered rest) ha.le hb.le

/-- The second part may have been written first. -/
theorem seqBefore (hb : Written i S (b, j)) (ha : Written j R (a, k)) :
    Written i (R.andThen S) (.seq a b, k) where
  le := Nat.le_trans hb.le ha.le
  takes := by rw [Code.takes, ha.takes, hb.takes]
  numbered rest :=
    ((hb.numbered rest).and (ha.numbered (b :: rest)) hb.le ha.le).imp fun _ h => h.symm

/-- A fork takes what one of its ways takes. -/
theorem newFork (ha : Written i R (a, j)) (hb : Written j S (b, k)) :
    Written i (R.either S) ((Code.newFork a b).run k) where
  le := Nat.le_succ_of_le (Nat.le_trans ha.le hb.le)
  takes := by
    change a.takes.either b.takes = _
    rw [ha.takes, hb.takes]
  numbered rest := by
    have hparts := (ha.numbered rest).and (hb.numbered rest) ha.le hb.le
    have hall := hparts.and (.entry k (.fork k a b :: rest)) (Nat.le_trans ha.le hb.le)
      (Nat.le_succ k)
    exact hall.imp fun _ ⟨hparts, hentry⟩ => ⟨hentry, hparts⟩

/-- The code or nothing. -/
theorem newOption (ha : Written i R (a, j)) (greedy : Bool) :
    Written i (R.either .nothing) ((Code.newOption a greedy).run j) := by
  cases greedy with
  | true => exact ha.newFork (.plain rfl fun _ _ => trivial)
  | false =>
    rw [Language.either_comm]
    exact newFork (.plain rfl fun _ _ => trivial) ha

/-- A loop takes any number of rounds, whichever way it prefers. -/
theorem newLoop (ha : Written i R (a, j)) (greedy : Bool) :
    Written i (R.roundsOf fun _ => True) ((Code.newLoop a greedy).run j) where
  le := Nat.le_succ_of_le ha.le
  takes := by
    change a.takes.roundsOf _ = _
    rw [ha.takes]
  numbered rest := by
    have hbody := ha.numbered (.loop j a greedy :: rest)
    have hall := hbody.and (.entry j (.loop j a greedy :: rest)) ha.le (Nat.le_succ j)
    exact hall.imp fun _ ⟨hbody, hentry⟩ => ⟨hentry, hbody⟩

end Written

section Rounds

variable {R S : Language} {body : StateM Nat Code} (hbody : ∀ i, Written i R (body.run i))
include hbody

/-- Written out a number of times, a body takes that number of rounds, and then comes what is next.
-/
theorem written_times (count : Nat) {i j : Nat} {next : Code} (h : Written i S (next, j)) :
    Written i ((R.rounds count).andThen S) ((times body count next).run j) := by
  induction count generalizing S next j with
  | zero =>
    rw [Language.rounds, Language.nothing_andThen]
    exact h
  | succ n ih =>
    -- The last round is written before `next`, and the others before that.
    rw [Language.rounds_succ_right, Language.andThen_assoc]
    exact ih (h.seqBefore (hbody j))

/-- A round before at most `j` others, or nothing, are at most `j + 1` rounds. -/
theorem written_upTo (greedy : Bool) (count : Nat) {i j k : Nat} {inner : Code}
    (h : Written i (R.roundsOf (· ≤ j)) (inner, k)) :
    Written i (R.roundsOf (· ≤ j + count)) ((upTo body greedy count inner).run k) := by
  induction count generalizing j k inner with
  | zero => exact h
  | succ n ih =>
    have hone : (R.andThen (R.roundsOf (· ≤ j))).either .nothing = R.roundsOf (· ≤ j + 1) := by
      rw [Language.andThen_roundsOf, ← Language.roundsOf_zero R, Language.either_roundsOf]
      apply Language.roundsOf_congr
      intro m
      constructor
      · rintro (⟨i, hi, rfl⟩ | rfl) <;> omega
      · intro hm
        cases m with
        | zero => exact .inr rfl
        | succ i => exact .inl ⟨i, by omega, rfl⟩
    have hoption := (h.seqBefore (hbody k)).newOption greedy
    rw [hone] at hoption
    have hall := ih hoption
    rw [Nat.add_right_comm j 1 n] at hall
    exact hall

/-- The round and the loop have the same numbers. Both are followed by the loop, so that what these
numbers stand for is the same too. -/
theorem written_oneOrMore (greedy : Bool) (i : Nat) :
    Written i (R.roundsOf (1 ≤ ·)) ((oneOrMore body greedy).run i) := by
  have hrun : (oneOrMore body greedy).run i = (.seq (body.run i).1
      (.loop (body.run i).2 (body.run i).1 greedy), (body.run i).2 + 1) := rfl
  obtain ⟨hle, htakes, hnumbered⟩ := hbody i
  rw [hrun]
  generalize body.run i = w at hle htakes hnumbered
  obtain ⟨round, j⟩ := w
  refine ⟨Nat.le_succ_of_le hle, ?_, fun rest => ?_⟩
  · change round.takes.andThen (round.takes.roundsOf _) = _
    rw [htakes, Language.andThen_roundsOf]
    apply Language.roundsOf_congr
    intro k
    constructor
    · rintro ⟨i, -, rfl⟩
      omega
    · intro hk
      exact ⟨k - 1, trivial, by omega⟩
  · have hround := hnumbered (.loop j round greedy :: rest)
    have hall := hround.and (.entry j (.loop j round greedy :: rest)) hle (Nat.le_succ j)
    exact hall.imp fun _ ⟨hround, hentry⟩ => ⟨hround, hentry, hround⟩

/-- Any number of rounds are taken, also by a body that may take nothing, of which the first round
is written apart. -/
theorem written_anyNumber (consumes greedy : Bool) (i : Nat) :
    Written i (R.roundsOf fun _ => True) ((anyNumber body consumes greedy).run i) := by
  unfold anyNumber
  split_ifs
  · exact (hbody i).newLoop greedy
  · -- One round or more, or none.
    have hany : (R.roundsOf (1 ≤ ·)).either .nothing = R.roundsOf fun _ => True := by
      rw [← Language.roundsOf_zero R, Language.either_roundsOf]
      apply Language.roundsOf_congr
      intro k
      have : 1 ≤ k ∨ k = 0 := by omega
      simp [this]
    rw [← hany]
    exact (written_oneOrMore hbody greedy i).newOption greedy

/-- Bounds on the number of rounds are kept, where a greatest number below the least counts as the
least. -/
theorem written_rounds (consumes greedy : Bool) (least : Nat) (most : Option Nat) (i : Nat) :
    Written i (R.roundsOf fun k => least ≤ k ∧ ∀ n, most = some n → k ≤ Nat.max n least)
      ((rounds body consumes greedy least most).run i) := by
  cases most with
  | some n =>
    -- The least number of rounds, and then up to as many as are left to the greatest.
    have hnone : Written i (R.roundsOf (· ≤ 0)) (.empty, i) := by
      refine .plain ?_ fun _ _ => trivial
      rw [takes, ← Language.roundsOf_zero R]
      exact Language.roundsOf_congr R fun k => Nat.le_zero.symm
    have hall := written_times hbody least (written_upTo hbody greedy (n - least) hnone)
    rw [Language.rounds_andThen_roundsOf] at hall
    have hallowed : ∀ k, (∃ m, m ≤ 0 + (n - least) ∧ k = least + m) ↔
        least ≤ k ∧ ∀ n', some n = some n' → k ≤ Nat.max n' least := by
      intro k
      constructor
      · rintro ⟨m, hm, rfl⟩
        refine ⟨by omega, ?_⟩
        rintro _ ⟨⟩
        change _ ≤ max n least
        omega
      · rintro ⟨hleast, hmost⟩
        have hmost : k ≤ max n least := hmost n rfl
        exact ⟨k - least, by omega, by omega⟩
    rw [Language.roundsOf_congr R hallowed] at hall
    exact hall
  | none =>
    cases least with
    | zero =>
      have hall := written_anyNumber hbody consumes greedy i
      rw [Language.roundsOf_congr R (Q := fun k => 0 ≤ k ∧ ∀ n, none = some n → k ≤ Nat.max n 0)
        (by simp)] at hall
      exact hall
    | succ n =>
      -- All rounds but one of the least number, and then one or more.
      have hall := written_times hbody n (written_oneOrMore hbody greedy i)
      rw [Language.rounds_andThen_roundsOf] at hall
      have hallowed : ∀ k, (∃ m, 1 ≤ m ∧ k = n + m) ↔
          n + 1 ≤ k ∧ ∀ n', none = some n' → k ≤ Nat.max n' (n + 1) := by
        intro k
        constructor
        · rintro ⟨m, hm, rfl⟩
          exact ⟨by omega, by simp⟩
        · rintro ⟨hleast, -⟩
          exact ⟨k - n, by omega, by omega⟩
      rw [Language.roundsOf_congr R hallowed] at hall
      exact hall

end Rounds

/-- A text is taken character by character. -/
theorem takes_ofText (text : Text) : (ofText text).takes = .exactly text := by
  induction text with
  | nil => rfl
  | cons c rest ih =>
    cases rest with
    | nil => exact Language.oneOf_single c
    | cons d rest =>
      rw [ofText, takes, ih, takes, Language.oneOf_single, Language.exactly_andThen_exactly]
      rfl

/-- Code for a text has no forks, so it agrees with every table. -/
theorem numbered_ofText (text : Text) (table : Nat → List Code) (rest : List Code) :
    (ofText text).Numbered table rest := by
  induction text generalizing rest with
  | nil => trivial
  | cons c text ih =>
    cases text with
    | nil => trivial
    | cons d text => exact ⟨trivial, ih rest⟩

end Code

/-- The code of a tree takes what the tree takes, and each of its numbers stands for what is left to
run from there. -/
theorem Node.written_code (n : Node) (i : Nat) : Code.Written i n.takes (n.code.run i) := by
  induction n generalizing i with
  | empty => exact .plain rfl fun _ _ => trivial
  | literal text => exact .plain (Code.takes_ofText text) (Code.numbered_ofText text)
  | set s => exact .plain rfl fun _ _ => trivial
  | assertion a => exact .plain rfl fun _ _ => trivial
  | group index name body ih =>
    -- The marks of the group take nothing.
    have hopening : Code.Written i .nothing (.opening, i) := .plain rfl fun _ _ => trivial
    have hclosing : ∀ j, Code.Written j .nothing (.closing index, j) :=
      fun _ => .plain rfl fun _ _ => trivial
    have hall := hopening.seq ((ih i).seq (hclosing _))
    rw [Language.andThen_nothing, Language.nothing_andThen] at hall
    exact hall
  | seq a b iha ihb => exact (iha i).seq (ihb _)
  | alt a b iha ihb => exact (iha i).newFork (ihb _)
  | rep body least most greedy ih => exact Code.written_rounds ih _ greedy least most i

/-! ## Patterns -/

/-- The pattern takes what a span covers, in the text around it. -/
def Matches (p : Pattern) (text : Text) (s : Span) : Prop :=
  ∃ l m r, text = l ++ m ++ r ∧ Text.byteLength l = s.start ∧
    Text.byteLength (l ++ m) = s.stop ∧ p.node.takes l m r

/-- The code of a pattern takes what its tree takes. -/
theorem takes_code (p : Pattern) : p.code.takes = p.node.takes :=
  (p.node.written_code 0).takes

/-- The forks of the code of a pattern are numbered, and nothing comes behind it. -/
theorem exists_numbered_code (p : Pattern) : ∃ table, p.code.Numbered table [] := by
  obtain ⟨table, htable⟩ := (p.node.written_code 0).numbered []
  exact ⟨table, htable table fun _ _ _ => rfl⟩

end SourceText.Pattern
