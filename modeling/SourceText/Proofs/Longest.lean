import Mathlib.Data.List.Basic
import SourceText.Proofs.Leftmost

/-!
# Where the preferred match is the longest

A search prefers the ways that come first in a pattern to those that make a match longer. In some
patterns the two never differ. Code is eager (`Code.Eager`) if wherever two ways part, the preferred
one takes a character, and the other can begin with none that it can begin with. Eager code that
takes a text is led through it by the characters alone: a step towards the next character leads on
to all of the text (`Runs.of_step`).

Nothing is given up for a match either. In eager code a match comes last at a place, so all ways are
followed to where they wait (`Code.reach_exhausts`), and one of them waits for the next character
(`exists_thread`). As long as the search is within the text, all of its ways are therefore bound for
the end of the text (`Bound`, `advance_following`), and there they find a match
(`found_following`). An anchored pattern begins no other ways in between, and what a search finds
later stops no earlier (`le_stop_scan`). So it finds the longest match (`exists_findFrom_longest`).
-/

namespace SourceText.Pattern

open Text (byteLength isBoundary)

variable {place : Place} {table : Nat → List Code}

/-! ## Eager code -/

namespace Code

/-- Whether code can come through without a character. -/
def nullable : Code → Bool
  | empty | assertion _ | opening | closing _ | loop _ _ _ => true
  | set _ => false
  | seq a b => a.nullable && b.nullable
  | fork _ a b => a.nullable || b.nullable

/-- Whether `c` can be the first character that code takes. -/
def begins (c : Char) : Code → Bool
  | empty | assertion _ | opening | closing _ => false
  | set s => s.mem c
  | seq a b => a.begins c || (a.nullable && b.begins c)
  | fork _ a b => a.begins c || b.begins c
  | loop _ body _ => body.begins c

end Code

/-- Whether `c` can be the first character that all that is to be run takes. -/
def beginsAll (c : Char) : List Code → Bool
  | [] => false
  | a :: rest => a.begins c || (a.nullable && beginsAll c rest)

/-- Where two ways part, the preferred one takes a character, and none that the other can begin
with. -/
def Code.Eager : Code → (rest : List Code) → Prop
  | empty, _ | set _, _ | assertion _, _ | opening, _ | closing _, _ => True
  | seq a b, rest => a.Eager (b :: rest) ∧ b.Eager rest
  | fork _ a b, rest =>
    a.nullable = false ∧ (∀ c, a.begins c = true → beginsAll c (b :: rest) = false) ∧
      a.Eager rest ∧ b.Eager rest
  | loop n body greedy, rest =>
    greedy = true ∧ body.nullable = false ∧
      (∀ c, body.begins c = true → beginsAll c rest = false) ∧
      body.Eager (loop n body greedy :: rest)

/-- All that is to be run is eager. -/
def EagerAll : List Code → Prop
  | [] => True
  | c :: rest => c.Eager rest ∧ EagerAll rest

variable {codes codes' : List Code} {c : Char}

/-- A step leaves nothing to run that is not eager. -/
theorem EagerAll.step {before after : Option Char} (h : EagerAll codes)
    (hs : Step before after codes codes') : EagerAll codes' := by
  cases hs with
  | empty | assertion | opening | closing | leave => exact h.2
  | seq =>
    obtain ⟨⟨ha, hb⟩, hrest⟩ := h
    exact ⟨ha, hb, hrest⟩
  | first =>
    obtain ⟨⟨-, -, ha, -⟩, hrest⟩ := h
    exact ⟨ha, hrest⟩
  | second =>
    obtain ⟨⟨-, -, -, hb⟩, hrest⟩ := h
    exact ⟨hb, hrest⟩
  | again =>
    obtain ⟨⟨hgreedy, hnull, hapart, hbody⟩, hrest⟩ := h
    exact ⟨hbody, ⟨hgreedy, hnull, hapart, hbody⟩, hrest⟩

/-- What can be taken first after a step could be taken first before it. -/
theorem beginsAll_of_step {before after : Option Char} (hs : Step before after codes codes')
    (h : beginsAll c codes' = true) : beginsAll c codes = true := by
  cases hs with
  | empty | assertion | opening | closing | leave =>
    simp [beginsAll, Code.begins, Code.nullable, h]
  | seq | first | second | again =>
    simp only [beginsAll, Code.begins, Code.nullable, Bool.or_eq_true, Bool.and_eq_true] at h ⊢
    grind

/-- Whatever takes a text begins with its first character. -/
theorem Runs.begins {l m r : Text} (h : Runs codes l (c :: m) r) : beginsAll c codes = true := by
  generalize hm : c :: m = m' at h
  induction h with
  | done => cases hm
  | take hc =>
    obtain ⟨rfl, -⟩ := List.cons.inj hm
    simp [beginsAll, Code.begins, hc]
  | step hs _ ih => exact beginsAll_of_step hs (ih hm)

/-- Of the two ways of an eager fork at most one begins with a character. -/
theorem EagerAll.fork_apart {n : Nat} {a b : Code} {rest : List Code}
    (h : EagerAll (.fork n a b :: rest)) (ha : beginsAll c (a :: rest) = true) :
    beginsAll c (b :: rest) = false := by
  obtain ⟨⟨hnull, hapart, -⟩, -⟩ := h
  rw [beginsAll, hnull, Bool.false_and, Bool.or_false] at ha
  exact hapart c ha

/-- So does at most one of another round of an eager loop and what comes after the loop. -/
theorem EagerAll.loop_apart {n : Nat} {body : Code} {greedy : Bool} {rest after : List Code}
    (h : EagerAll (.loop n body greedy :: rest)) (hbody : beginsAll c (body :: after) = true) :
    beginsAll c rest = false := by
  obtain ⟨⟨-, hnull, hapart, -⟩, -⟩ := h
  rw [beginsAll, hnull, Bool.false_and, Bool.or_false] at hbody
  exact hapart c hbody

/-- A step of eager code towards the first character of a text leads on to all of the text. -/
theorem Runs.of_step {l m r : Text} (h : Runs codes l (c :: m) r) (heager : EagerAll codes)
    (hs : Step l.getLast? (some c) codes codes') (hc : beginsAll c codes' = true) :
    Runs codes' l (c :: m) r := by
  cases h with
  | take => cases hs
  | step hs' h =>
    -- The run does not go the other way, which does not begin with the character.
    have hc' := h.begins
    cases hs with
    | empty | assertion | opening | closing | seq =>
      cases hs'
      exact h
    | first =>
      cases hs' with
      | first => exact h
      | second => exact absurd hc' (by simp [heager.fork_apart hc])
    | second =>
      cases hs' with
      | second => exact h
      | first => exact absurd hc (by simp [heager.fork_apart hc'])
    | again =>
      cases hs' with
      | again => exact h
      | leave => exact absurd hc' (by simp [heager.loop_apart hc])
    | leave =>
      cases hs' with
      | leave => exact h
      | again => exact absurd hc (by simp [heager.loop_apart hc'])

/-! ## A match is found last -/

/-- Code that takes a character, or after which nothing is found, finds nothing at the place. -/
theorem Code.found_reach (code : Code) {rest : List Code} {next : Trace → Front → Front}
    {t : Trace} {f : Front}
    (h : code.nullable = false ∨ ∀ t g, (next t g).found = g.found) :
    (code.reach place rest next t f).found = f.found := by
  induction code generalizing rest next t f with
  | empty | opening | closing => exact h.resolve_left (by simp [nullable]) _ _
  | set chars =>
    unfold Code.reach Front.wait
    split_ifs <;> rfl
  | assertion a =>
    unfold Code.reach
    split_ifs
    · exact h.resolve_left (by simp [nullable]) _ _
    · rfl
  | seq a b iha ihb =>
    refine iha ?_
    rcases h with h | h
    · rcases Bool.and_eq_false_iff.mp h with ha | hb
      · exact .inl ha
      · exact .inr fun t g => ihb (.inl hb)
    · exact .inr fun t g => ihb (.inr h)
  | fork n a b iha ihb =>
    unfold Code.reach
    split_ifs
    · rfl
    · rw [nullable, Bool.or_eq_false_iff] at h
      rw [ihb (h.imp_left And.right), iha (h.imp_left And.left)]
      rfl
  | loop n body greedy ih =>
    -- A loop can come through without a character, so nothing may be found behind it.
    have hnext := h.resolve_left (by simp [nullable])
    unfold Code.reach
    simp only
    split_ifs
    · rfl
    · rw [hnext, ih (.inr fun _ _ => rfl)]
      rfl
    · rw [ih (.inr fun _ _ => rfl), hnext]
      rfl

/-! ## All ways are followed -/

/-- What is to be run at the place has been followed to its end, whether a match has been found or
not: as far as a way that waits, to a fork or a loop that has been entered, or until nothing is
left. -/
inductive Front.Follows (place : Place) (f : Front) : List Code → Prop where
  /-- Nothing is left. -/
  | ended : Front.Follows place f []
  /-- A way waits for the character. -/
  | waits {t : Thread} (h : t ∈ f.threads) : Front.Follows place f (.set t.chars :: t.rest)
  /-- It has been entered. -/
  | entered {c : Code} {rest : List Code} {n : Nat} (hn : c.number? = some n)
    (h : f.visited.mem n = true) : Front.Follows place f (c :: rest)
  /-- All that comes next has been followed. -/
  | steps {c : Code} {rest : List Code} (hc : ∀ chars, c ≠ .set chars)
    (h : ∀ codes, Step place.before place.after (c :: rest) codes → Front.Follows place f codes) :
    Front.Follows place f (c :: rest)

/-- What is left to run from a number has been followed. -/
def Front.FollowsFrom (place : Place) (table : Nat → List Code) (f : Front) (n : Nat) : Prop :=
  ∀ codes, Step place.before place.after (table n) codes → f.Follows place codes

/-- Following what is to be run makes one front of another, and gives up no way in favour of a
match. -/
structure Front.Exhausts (place : Place) (table : Nat → List Code) (f g : Front)
    (codes : List Code) : Prop where
  /-- What is there stays. -/
  le : f.Le g
  /-- What is to be run has been followed. -/
  follows : g.Follows place codes
  /-- So has all that is left to run from what has been entered. -/
  closed : ∀ n, g.visited.mem n = true → f.visited.mem n = true ∨ g.FollowsFrom place table n

namespace Front

variable {f g h : Front}

/-- What has been followed stays so as the front grows. -/
theorem Follows.mono (hfg : f.Le g) (hf : f.Follows place codes) : g.Follows place codes := by
  induction hf with
  | ended => exact .ended
  | waits ht => exact .waits (hfg.threads _ ht)
  | entered hn hv => exact .entered hn (hfg.visited _ hv)
  | steps hc _ ih => exact .steps hc ih

namespace Exhausts

/-- What is entered on the way from one front to a third is followed by then. -/
theorem closed_trans (hfg : Exhausts place table f g codes)
    (hgh : Exhausts place table g h codes') :
    ∀ n, h.visited.mem n = true → f.visited.mem n = true ∨ h.FollowsFrom place table n := by
  intro n hn
  rcases hgh.closed n hn with hn | hn
  · exact (hfg.closed n hn).imp_right fun hn codes hs => (hn codes hs).mono hgh.le
  · exact .inr hn

/-- What has been entered before is not followed again. -/
theorem of_entered {a : Code} {rest : List Code} {n : Nat} (hn : a.number? = some n)
    (hf : f.visited.mem n = true) : Exhausts place table f f (a :: rest) :=
  ⟨.refl f, .entered hn hf, fun _ hm => .inl hm⟩

/-- A fork or a loop is entered, and then all that comes next is followed. -/
theorem of_enter {a : Code} {rest : List Code} {n : Nat} (ha : a.Numbered table rest)
    (hn : a.number? = some n) (hle : (f.enter n).Le g)
    (hclosed : ∀ m, g.visited.mem m = true →
      (f.enter n).visited.mem m = true ∨ g.FollowsFrom place table m)
    (hnext : ∀ codes, Step place.before place.after (a :: rest) codes → g.Follows place codes) :
    Exhausts place table f g (a :: rest) where
  le := (enter_le n).trans hle
  follows := .entered hn (hle.visited n (mem_enter n))
  closed m hm := by
    rcases hclosed m hm with hm | hm
    · rw [Front.enter, Visited.mem_insert, Bool.or_eq_true, decide_eq_true_iff] at hm
      rcases hm with hm | rfl
      · exact .inl hm
      · -- The number itself stands for what is followed.
        right
        unfold FollowsFrom
        rw [ha.entry hn]
        exact hnext
    · exact .inr hm

/-- Code that comes through at once is followed if what comes after it is. -/
theorem of_steps {a : Code} {rest : List Code} (hg : Exhausts place table f g codes)
    (ha : ∀ chars, a ≠ .set chars)
    (hs : ∀ codes', Step place.before place.after (a :: rest) codes' → codes' = codes) :
    Exhausts place table f g (a :: rest) where
  le := hg.le
  follows := .steps ha fun codes' h => hs codes' h ▸ hg.follows
  closed := hg.closed

end Exhausts

end Front

open Front (Exhausts)

/-- Where nothing has been found, eager code follows all ways, since a match comes last. -/
theorem Code.reach_exhausts (code : Code) {rest : List Code} {next : Trace → Front → Front}
    {f : Front} (hcode : code.Numbered table rest) (heager : code.Eager rest)
    (hf : f.found = none)
    (hnext : ∀ t g, f.Le g → g.found = none → Exhausts place table g (next t g) rest)
    (t : Trace) : Exhausts place table f (code.reach place rest next t f) (code :: rest) := by
  induction code generalizing rest next f t with
  | empty => exact (hnext t f (.refl f) hf).of_steps (by simp) (by rintro _ ⟨⟩; rfl)
  | set chars =>
    unfold Code.reach Front.wait
    rw [if_neg (by simp [hf])]
    refine ⟨⟨fun _ hn => hn, fun _ ht => .tail _ ht, fun _ hm => hm⟩, ?_, fun n hn => .inl hn⟩
    exact .waits (t := ⟨chars, rest, t⟩) (.head _)
  | assertion a =>
    unfold Code.reach
    split_ifs with ha
    · exact (hnext t f (.refl f) hf).of_steps (by simp) (by rintro _ ⟨⟩; rfl)
    · -- Where the assertion does not hold, nothing comes next.
      refine ⟨.refl f, .steps (by simp) ?_, fun n hn => .inl hn⟩
      intro codes hs
      cases hs with
      | assertion h => exact absurd h ha
  | opening => exact (hnext _ f (.refl f) hf).of_steps (by simp) (by rintro _ ⟨⟩; rfl)
  | closing index => exact (hnext _ f (.refl f) hf).of_steps (by simp) (by rintro _ ⟨⟩; rfl)
  | seq a b iha ihb =>
    obtain ⟨ha, hb⟩ := hcode
    obtain ⟨hea, heb⟩ := heager
    have hall := iha ha hea hf (fun t g hle hg =>
      ihb hb heb hg (fun t g' hle' hg' => hnext t g' (hle.trans hle') hg') t) t
    exact hall.of_steps (by simp) (by rintro _ ⟨⟩; rfl)
  | fork n a b iha ihb =>
    obtain ⟨hnull, -, hea, heb⟩ := heager
    unfold Code.reach
    split_ifs with hv
    · exact .of_entered rfl hv
    · have hfirst := iha hcode.2.1 hea (f := f.enter n) hf
        (fun t g hle hg => hnext t g ((Front.enter_le n).trans hle) hg) t
      -- The first way takes a character, so it has found nothing.
      have hnone : (a.reach place rest next t (f.enter n)).found = none :=
        (a.found_reach (.inl hnull)).trans hf
      have hsecond := ihb hcode.2.2 heb hnone
        (fun t g hle hg => hnext t g ((Front.enter_le n).trans (hfirst.le.trans hle)) hg) t
      refine .of_enter hcode rfl (hfirst.le.trans hsecond.le) (hfirst.closed_trans hsecond) ?_
      rintro _ ⟨⟩
      · exact hfirst.follows.mono hsecond.le
      · exact hsecond.follows
  | loop n body greedy ih =>
    obtain ⟨rfl, hnull, -, hebody⟩ := heager
    unfold Code.reach
    simp only [if_true]
    split_ifs with hv
    · exact .of_entered rfl hv
    · have hentered : (f.enter n).found = none := hf
      -- A round takes a character, so it does not come back to the loop at this place.
      have hround : Exhausts place table (f.enter n)
          (body.reach place (.loop n body true :: rest) (fun _ f => f) t (f.enter n))
          (body :: .loop n body true :: rest) :=
        ih hcode.2 hebody hentered
          (fun t g hle hg => .of_entered rfl (hle.visited n (Front.mem_enter n))) t
      have hnone : (body.reach place (.loop n body true :: rest) (fun _ f => f) t
          (f.enter n)).found = none := (body.found_reach (.inl hnull)).trans hentered
      have hleave := hnext t _ ((Front.enter_le n).trans hround.le) hnone
      refine .of_enter hcode rfl (hround.le.trans hleave.le) (hround.closed_trans hleave) ?_
      rintro _ ⟨⟩
      · exact hround.follows.mono hleave.le
      · exact hleave.follows

/-- All ways of eager code are followed to where they wait, as long as nothing has been found. -/
theorem reachAll_exhausts (hcodes : NumberedAll table codes) (heager : EagerAll codes)
    (t : Trace) {f : Front} (hf : f.found = none) :
    Exhausts place table f (reachAll place codes t f) codes := by
  induction codes generalizing t f with
  | nil =>
    exact ⟨⟨fun _ hn => hn, fun _ ht => ht, fun m hm => by simp [hf] at hm⟩, .ended,
      fun n hn => .inl hn⟩
  | cons a rest ih =>
    exact a.reach_exhausts hcodes.1 heager.1 hf (fun t g _ hg => ih hcodes.2 heager.2 t hg) t

/-- Where all ways have been followed, a run comes to a way that waits for its first character. -/
theorem exists_thread {l m r : Text} {f : Front}
    (hclosed : ∀ n, f.visited.mem n = true → f.FollowsFrom (.between l (c :: (m ++ r))) table n)
    (hfollows : f.Follows (.between l (c :: (m ++ r))) codes) (hcodes : NumberedAll table codes)
    (h : Runs codes l (c :: m) r) : ∃ t ∈ f.threads, t.TakesOn l c m r := by
  generalize hm : c :: m = m' at h
  induction h with
  | done => cases hm
  | take hc hrest _ =>
    obtain ⟨rfl, rfl⟩ := List.cons.inj hm
    cases hfollows with
    | waits ht => exact ⟨_, ht, hc, hrest⟩
    | entered hn => cases hn
    | steps hset => exact absurd rfl (hset _)
  | step hs _ ih =>
    subst hm
    have hcodes' := hcodes.step hs
    cases hfollows with
    | ended | waits => cases hs
    | entered hn hv =>
      -- All that comes next from its number has been followed.
      refine ih hclosed (hclosed _ hv _ ?_) hcodes' rfl
      rw [hcodes.1.entry hn]
      exact hs
    | steps _ hnext => exact ih hclosed (hnext _ hs) hcodes' rfl

/-! ## The search -/

/-- The front of ways that are followed one after the other. -/
def Front.following (place : Place) (ways : List (List Code × Trace)) : Front :=
  ways.foldl (fun f way => reachAll place way.1 way.2 f) {}

/-- A way that stands between `l` and `m ++ r`, and takes `m`. -/
structure Bound (table : Nat → List Code) (l m r : Text) (codes : List Code) : Prop where
  /-- What is to be run stands under its numbers. -/
  numbered : NumberedAll table codes
  /-- It is eager. -/
  eager : EagerAll codes
  /-- It takes the text. -/
  runs : Runs codes l m r

/-- What all ways keep holds of the front that they come to. -/
theorem Keeps.following {way : List Code → Trace → Prop} {front : Front → Prop}
    (K : Keeps place way front) {ways : List (List Code × Trace)} (hempty : front {})
    (hways : ∀ w ∈ ways, way w.1 w.2) : front (Front.following place ways) := by
  unfold Front.following
  generalize ({} : Front) = f at hempty
  induction ways generalizing f with
  | nil => exact hempty
  | cons w ways ih =>
    exact ih (fun w hw => hways w (.tail _ hw)) _ (K.reachAll _ (hways w (.head _)) hempty)

/-- What the first way has come to stays. -/
theorem Front.le_following (place : Place) (way : List Code × Trace)
    {ways : List (List Code × Trace)} (hways : ∀ w ∈ ways, NumberedAll table w.1) :
    (reachAll place way.1 way.2 {}).Le (Front.following place (way :: ways)) := by
  unfold Front.following
  rw [List.foldl_cons]
  generalize reachAll place way.1 way.2 {} = f
  induction ways generalizing f with
  | nil => exact .refl f
  | cons w ways ih =>
    have hgrows : Front.Grows place table f _ w.1 :=
      reachAll_grows (hways w (.head _)) w.2 f
    exact hgrows.le.trans (ih (fun w hw => hways w (.tail _ hw)) _)

/-- Ways that are to take a character of `c :: m` and come to wait for it are to take `m` behind
it. -/
theorem keeps_bound (table : Nat → List Code) (l : Text) (c : Char) (m r : Text) :
    Keeps (.between l (c :: (m ++ r)))
      (fun codes _ => NumberedAll table codes ∧ EagerAll codes ∧
        (beginsAll c codes = true → Runs codes l (c :: m) r))
      (fun f => ∀ t ∈ f.threads, t.chars.mem c = true → Bound table (l ++ [c]) m r t.rest) where
  step := by
    rintro codes codes' t hs ⟨hnumbered, heager, hruns⟩
    refine ⟨hnumbered.step hs, heager.step hs, fun hc => ?_⟩
    exact (hruns (beginsAll_of_step hs hc)).of_step heager hs hc
  opening h := h
  closing _ h := h
  wait := by
    rintro f chars rest t hf ⟨⟨-, hnumbered⟩, ⟨-, heager⟩, hruns⟩
    unfold Front.wait
    split_ifs
    · exact hf
    · refine List.forall_mem_cons.mpr ⟨fun hc => ⟨hnumbered, heager, ?_⟩, hf⟩
      have h := hruns (by simp [beginsAll, Code.begins, hc])
      cases h with
      | take _ h => exact h
      | step hs => cases hs
  finish hf _ := hf
  enter _ hf := hf

/-- What is found at a place ends there. -/
theorem keeps_stop (place : Place) :
    Keeps place (fun _ _ => True)
      (fun f => ∀ m, f.found = some m → m.span.stop = place.offset) where
  step _ h := h
  opening h := h
  closing _ h := h
  wait := by
    intro f chars rest t hf _
    unfold Front.wait
    split_ifs <;> exact hf
  finish hf _ := forall_or hf (by rintro _ ⟨⟩; rfl)
  enter _ hf := hf

variable {l m r : Text} {ways : List (List Code × Trace)}

/-- Ways that take a character lead on to ways that take the rest. -/
theorem advance_following (hways : ways ≠ [])
    (hbound : ∀ way ∈ ways, Bound table l (c :: m) r way.1) :
    (Front.following (.between l (c :: (m ++ r))) ways).advance c ≠ [] ∧
      ∀ way ∈ (Front.following (.between l (c :: (m ++ r))) ways).advance c,
        Bound table (l ++ [c]) m r way.1 := by
  constructor
  · -- One of those that the first way comes to leads on.
    obtain ⟨way, ways, rfl⟩ := List.exists_cons_of_ne_nil hways
    obtain ⟨hnumbered, heager, hruns⟩ := hbound way (.head _)
    have hall : Exhausts (.between l (c :: (m ++ r))) table {} _ way.1 :=
      reachAll_exhausts hnumbered heager way.2 rfl
    have hle := Front.le_following (.between l (c :: (m ++ r))) way
      fun w hw => (hbound w (.tail _ hw)).numbered
    obtain ⟨t, ht, hc, -⟩ := exists_thread
      (fun n hn => (hall.closed n hn).resolve_left (by simp [Visited.mem])) hall.follows hnumbered
      hruns
    exact List.ne_nil_of_mem (Front.mem_advance.mpr ⟨t, hle.threads t ht, hc, rfl⟩)
  · have hthreads := (keeps_bound table l c m r).following (by simp) fun way hway =>
      ⟨(hbound way hway).numbered, (hbound way hway).eager, fun _ => (hbound way hway).runs⟩
    intro way hway
    obtain ⟨t, ht, hc, rfl⟩ := Front.mem_advance.mp hway
    exact hthreads t ht hc

/-- Ways that have nothing left to take have found a match. -/
theorem found_following (hways : ways ≠ []) (hbound : ∀ way ∈ ways, Bound table l [] r way.1) :
    ∃ b, (Front.following (.between l r) ways).found = some b ∧ b.span.stop = byteLength l := by
  obtain ⟨way, ways, rfl⟩ := List.exists_cons_of_ne_nil hways
  obtain ⟨hnumbered, -, hruns⟩ := hbound way (.head _)
  have hgrows : Front.Grows (.between l r) table {} _ way.1 :=
    reachAll_grows hnumbered way.2 {}
  have hclosed := hgrows.closed_of_closed fun n hn => by simp [Visited.mem] at hn
  rcases exists_hit (m := []) hclosed hgrows.covers hnumbered hruns with
    hfound | ⟨t, -, c, m', h, -⟩
  · obtain ⟨b, hb⟩ := Option.isSome_iff_exists.mp hfound
    have hle := Front.le_following (.between l r) way
      fun w hw => (hbound w (.tail _ hw)).numbered
    have hall : ∀ w ∈ way :: ways, True := fun _ _ => trivial
    have hstop := (keeps_stop (.between l r)).following (by simp) hall b (hle.found b hb)
    exact ⟨b, hle.found b hb, hstop⟩
  · cases h

/-- A search does not go back on a match: what it ends with stops no earlier. -/
theorem le_stop_scan {code : Code} {ways : List (List Code × Trace)} {b : Match}
    {before : Option Char} {offset n : Nat} (hb : n ≤ b.span.stop) (hoffset : n ≤ offset)
    (rest : Text) :
    ∃ found, scan code ways (some b) before offset rest = some found ∧ n ≤ found.span.stop := by
  -- Whatever is found at a place stops there, which is not before `n` either.
  have hfound : ∀ (after : Option Char) (ways : List (List Code × Trace)) (before : Option Char)
      (offset : Nat) (b : Match), n ≤ b.span.stop → n ≤ offset →
        ∃ b', (Front.gather ⟨before, after, offset⟩ code (some b) ways).found.or (some b) =
          some b' ∧ n ≤ b'.span.stop := by
    intro after ways before offset b hb hoffset
    have hall : ∀ w ∈ ways, True := fun _ _ => trivial
    have hstop : ∀ m, (Front.gather ⟨before, after, offset⟩ code (some b) ways).found = some m →
        m.span.stop = offset := (keeps_stop _).gather (by simp) hall trivial
    cases h : (Front.gather ⟨before, after, offset⟩ code (some b) ways).found with
    | none => exact ⟨b, rfl, hb⟩
    | some b' => exact ⟨b', rfl, (hstop b' h).symm ▸ hoffset⟩
  induction rest generalizing ways b before offset with
  | nil => exact hfound none ways before offset b hb hoffset
  | cons c rest ih =>
    obtain ⟨b', hb', hle⟩ := hfound (some c) ways before offset b hb hoffset
    rw [scan, hb']
    split_ifs
    · exact ⟨b', rfl, hle⟩
    · exact ih hle (Nat.le_add_right_of_le hoffset)

/-- Code that runs at the start of a text and nowhere else. -/
def Code.Anchored (code : Code) : Prop := ∃ body, code = .seq (.assertion .textStart) body

/-- Behind the first character no way begins. -/
theorem Code.Anchored.gather_eq {code : Code} (hcode : code.Anchored) (hl : l ≠ []) (r : Text)
    (best : Option Match) (ways : List (List Code × Trace)) :
    Front.gather (.between l r) code best ways = .following (.between l r) ways := by
  obtain ⟨body, rfl⟩ := hcode
  obtain rfl | ⟨b, c, rfl⟩ := l.eq_nil_or_concat'
  · exact absurd rfl hl
  · have hbefore : (Place.between (b ++ [c]) r).before = some c := List.getLast?_concat
    have hnone : ∀ after, Assertion.textStart.holds (some c) after = false := fun _ => rfl
    unfold Front.gather Front.following
    simp only [reachAll, Code.reach, hbefore, hnone, Bool.false_eq_true, if_false, ite_self]

/-- If ways that are eager take the beginning of a text, a match is found that stops no earlier. -/
theorem scan_longest {code : Code} (hcode : code.Anchored) {best : Option Match}
    {live : List (List Code × Trace)}
    (hgather : Front.gather (.between l (m ++ r)) code best ways =
      .following (.between l (m ++ r)) live)
    (hlive : live ≠ []) (hbound : ∀ way ∈ live, Bound table l m r way.1) :
    ∃ found, scan code ways best l.getLast? (byteLength l) (m ++ r) = some found ∧
      byteLength (l ++ m) ≤ found.span.stop := by
  -- The ways stay bound for the end of the text, from one character to the next.
  induction m generalizing l ways best live with
  | nil =>
    obtain ⟨b, hb, hstop⟩ := found_following hlive hbound
    rw [List.append_nil]
    rw [List.nil_append] at hgather ⊢
    cases r with
    | nil =>
      refine ⟨b, ?_, Nat.le_of_eq hstop.symm⟩
      rw [scan, ← Option.some_or, ← hb, ← hgather]
      rfl
    | cons c r =>
      rw [scan_cons code ways best l c r hgather, hb, Option.some_or]
      split_ifs
      · exact ⟨b, rfl, Nat.le_of_eq hstop.symm⟩
      · exact le_stop_scan (Nat.le_of_eq hstop.symm) (by simp) r
  | cons c m ih =>
    obtain ⟨hne, hnext⟩ := advance_following hlive hbound
    have hcut : l ++ c :: m = l ++ [c] ++ m := by simp
    rw [List.cons_append, scan_cons code ways best l c (m ++ r) hgather, if_neg (by simp [hne]),
      hcut]
    exact ih (hcode.gather_eq (by simp) _ _ _) hne hnext

/-- A pattern that is anchored at the start of the text and eager finds the longest of all matches
that start there. -/
theorem exists_findFrom_longest {p : Pattern} (hanchored : p.code.Anchored)
    (heager : p.code.Eager []) {m r : Text} (h : p.node.takes [] m r) :
    ∃ found, p.findFrom (m ++ r) 0 = some found ∧ byteLength m ≤ found.span.stop := by
  obtain ⟨table, htable⟩ := p.exists_numbered_code
  have hruns : Runs [p.code] [] m r := by
    rw [runs_singleton_iff, takes_code]
    exact h
  have hfind := findFrom_append p [] (m ++ r)
  rw [List.nil_append, Text.byteLength_nil] at hfind
  have hbegin : ∀ way ∈ [([p.code], Trace.begin 0)], Bound table [] m r way.1 := by
    intro way hway
    obtain rfl := List.mem_singleton.mp hway
    exact ⟨⟨htable, trivial⟩, ⟨heager, trivial⟩, hruns⟩
  rw [hfind]
  exact scan_longest hanchored rfl (List.cons_ne_nil _ _) hbegin

end SourceText.Pattern
