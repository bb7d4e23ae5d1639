import SourceText.Proofs.Runs

/-!
# A search finds the leftmost match

That the leftmost match is found needs the search to give up no way that another does not replace.
A way that comes to a fork or a loop which has been entered at the place ends there. All that is
left to run from its number has been followed when it was entered (`Front.Closed`), by a way that
is preferred and so began no later. `Front.Covers` says that what is to be run has been followed to
its end. A run over what is covered comes to a match at the place or to a way that waits for the
next character (`exists_hit`). From place to place a match remains promised that starts no later
(`Underway.settle`), until the search ends with one (`scan_leftmost`). So if there is a match at or
behind an offset, a search from there finds one (`exists_findFrom`), and the one that it finds is
the leftmost (`findFrom_le`).
-/

namespace SourceText.Pattern

open Text (byteLength isBoundary)

variable {place : Place} {table : Nat → List Code}

/-! ## What is entered is followed to its end -/

/-- The number of a fork or a loop. -/
def Code.number? : Code → Option Nat
  | fork n _ _ | loop n _ _ => some n
  | empty | set _ | assertion _ | opening | closing _ | seq _ _ => none

/-- All that is to be run, part after part, stands under its numbers. -/
def NumberedAll (table : Nat → List Code) : List Code → Prop
  | [] => True
  | c :: rest => c.Numbered table rest ∧ NumberedAll table rest

/-- A step leaves nothing to run that does not stand under its numbers. -/
theorem NumberedAll.step {table : Nat → List Code} {before after : Option Char}
    {codes codes' : List Code} (h : NumberedAll table codes) (hs : Step before after codes codes') :
    NumberedAll table codes' := by
  cases hs with
  | empty | assertion | opening | closing | leave => exact h.2
  | seq =>
    obtain ⟨⟨ha, hb⟩, hrest⟩ := h
    exact ⟨ha, hb, hrest⟩
  | first =>
    obtain ⟨⟨-, ha, -⟩, hrest⟩ := h
    exact ⟨ha, hrest⟩
  | second =>
    obtain ⟨⟨-, -, hb⟩, hrest⟩ := h
    exact ⟨hb, hrest⟩
  | again =>
    obtain ⟨⟨hentry, hbody⟩, hrest⟩ := h
    exact ⟨hbody, ⟨hentry, hbody⟩, hrest⟩

/-- A number stands for what is left to run from there. -/
theorem Code.Numbered.entry {table : Nat → List Code} {c : Code} {rest : List Code} {n : Nat}
    (h : c.Numbered table rest) (hn : c.number? = some n) : table n = c :: rest := by
  cases c with
  | fork m a b =>
    obtain rfl : m = n := Option.some.inj hn
    exact h.1
  | loop m body greedy =>
    obtain rfl : m = n := Option.some.inj hn
    exact h.1
  | empty | set | assertion | opening | closing | seq => cases hn

/-- What is to be run at the place has been followed to its end: as far as a way that waits, or to a
fork or a loop that has been entered. If a match has been found, nothing else counts. -/
inductive Front.Covers (place : Place) (f : Front) : List Code → Prop where
  /-- There is a match. -/
  | found {codes : List Code} (h : f.found.isSome = true) : Front.Covers place f codes
  /-- A way waits for the character. -/
  | waits {t : Thread} (h : t ∈ f.threads) : Front.Covers place f (.set t.chars :: t.rest)
  /-- It has been entered. -/
  | entered {c : Code} {rest : List Code} {n : Nat} (hn : c.number? = some n)
    (h : f.visited.mem n = true) : Front.Covers place f (c :: rest)
  /-- All that comes next has been followed. -/
  | steps {c : Code} {rest : List Code} (hc : ∀ chars, c ≠ .set chars)
    (h : ∀ codes, Step place.before place.after (c :: rest) codes → Front.Covers place f codes) :
    Front.Covers place f (c :: rest)

/-- What is left to run from a number has been followed. -/
def Front.ClosedAt (place : Place) (table : Nat → List Code) (f : Front) (n : Nat) : Prop :=
  ∀ codes, Step place.before place.after (table n) codes → f.Covers place codes

/-- So it has from all that have been entered. -/
def Front.Closed (place : Place) (table : Nat → List Code) (f : Front) : Prop :=
  ∀ n, f.visited.mem n = true → f.ClosedAt place table n

/-- The second front has all that the first has. -/
structure Front.Le (f g : Front) : Prop where
  /-- All forks and loops that have been entered. -/
  visited : ∀ n, f.visited.mem n = true → g.visited.mem n = true
  /-- All ways that wait. -/
  threads : ∀ t ∈ f.threads, t ∈ g.threads
  /-- The match, if there is one. -/
  found : ∀ m, f.found = some m → g.found = some m

namespace Front

variable {f g h : Front}

/-- Every front has what it has. -/
theorem Le.refl (f : Front) : f.Le f :=
  ⟨fun _ hn => hn, fun _ ht => ht, fun _ hm => hm⟩

/-- What the first has is handed on to the third. -/
theorem Le.trans (hfg : f.Le g) (hgh : g.Le h) : f.Le h :=
  ⟨fun n hn => hgh.visited n (hfg.visited n hn), fun t ht => hgh.threads t (hfg.threads t ht),
    fun m hm => hgh.found m (hfg.found m hm)⟩

/-- What has been followed stays so as the front grows. -/
theorem Covers.mono (hfg : f.Le g) {codes : List Code} (hf : f.Covers place codes) :
    g.Covers place codes := by
  induction hf with
  | found hm =>
    obtain ⟨m, hm⟩ := Option.isSome_iff_exists.mp hm
    exact .found (by rw [hfg.found m hm]; rfl)
  | waits ht => exact .waits (hfg.threads _ ht)
  | entered hn hv => exact .entered hn (hfg.visited _ hv)
  | steps hc _ ih => exact .steps hc ih

/-- A number that has been followed stays so as the front grows. -/
theorem ClosedAt.mono (hfg : f.Le g) {n : Nat} (hf : f.ClosedAt place table n) :
    g.ClosedAt place table n :=
  fun codes hs => (hf codes hs).mono hfg

/-- Following what is to be run makes one front of another. It keeps what is there, covers what it
follows, and leaves nothing open of what it enters. -/
structure Grows (place : Place) (table : Nat → List Code) (f g : Front) (codes : List Code) :
    Prop where
  /-- What is there stays. -/
  le : f.Le g
  /-- What is to be run is covered. -/
  covers : g.Covers place codes
  /-- Whatever is entered is closed. -/
  closed : ∀ n, g.visited.mem n = true → f.visited.mem n = true ∨ g.ClosedAt place table n

/-- A front that has left nothing open does not after it has grown. -/
theorem Grows.closed_of_closed {codes : List Code} (hg : Grows place table f g codes)
    (hf : f.Closed place table) : g.Closed place table := by
  intro n hn
  rcases hg.closed n hn with hn | hn
  · exact (hf n hn).mono hg.le
  · exact hn

/-- A way that waits covers the set that it waits with. -/
theorem wait_grows (chars : CharSet) (rest : List Code) (t : Trace) :
    Grows place table f (f.wait ⟨chars, rest, t⟩) (.set chars :: rest) := by
  unfold Front.wait
  split_ifs with hm
  · exact ⟨.refl f, .found hm, fun n hn => .inl hn⟩
  · refine ⟨⟨fun _ hn => hn, fun _ ht => .tail _ ht, fun _ hm => hm⟩, ?_, fun n hn => .inl hn⟩
    exact .waits (t := ⟨chars, rest, t⟩) (.head _)

/-- A match covers all. -/
theorem finish_grows (m : Match) : Grows place table f (f.finish m) [] where
  le := ⟨fun _ hn => hn, fun _ ht => ht, fun m' hm => by simp [Front.finish, hm]⟩
  covers := .found (by simp [Front.finish])
  closed n hn := .inl hn

/-- Entering a number takes nothing away. -/
theorem enter_le (n : Nat) : f.Le (f.enter n) :=
  ⟨fun m hm => by simp [Front.enter, Visited.mem_insert, hm], fun _ ht => ht, fun _ hm => hm⟩

/-- A number that is entered has been entered. -/
theorem mem_enter (n : Nat) : (f.enter n).visited.mem n = true := by
  simp [Front.enter, Visited.mem_insert]

/-- After one front has grown to a second and that to a third, nothing is left open. -/
theorem Grows.closed_trans {codes codes' : List Code} (hfg : Grows place table f g codes)
    (hgh : Grows place table g h codes') :
    ∀ n, h.visited.mem n = true → f.visited.mem n = true ∨ h.ClosedAt place table n := by
  intro n hn
  rcases hgh.closed n hn with hn | hn
  · exact (hfg.closed n hn).imp_right fun hn => hn.mono hgh.le
  · exact .inr hn

/-- A fork or a loop is entered, and then all that comes next is followed. -/
theorem Grows.of_enter {c : Code} {rest : List Code} {n : Nat} (hc : c.Numbered table rest)
    (hn : c.number? = some n) (hle : (f.enter n).Le g)
    (hclosed : ∀ m, g.visited.mem m = true →
      (f.enter n).visited.mem m = true ∨ g.ClosedAt place table m)
    (hnext : ∀ codes, Step place.before place.after (c :: rest) codes → g.Covers place codes) :
    Grows place table f g (c :: rest) where
  le := (enter_le n).trans hle
  covers := .entered hn (hle.visited n (mem_enter n))
  closed m hm := by
    rcases hclosed m hm with hm | hm
    · rw [Front.enter, Visited.mem_insert, Bool.or_eq_true, decide_eq_true_iff] at hm
      rcases hm with hm | rfl
      · exact .inl hm
      · -- The number itself stands for what is followed.
        right
        unfold ClosedAt
        rw [hc.entry hn]
        exact hnext
    · exact .inr hm

/-- What has been entered before is not followed again. -/
theorem Grows.of_entered {c : Code} {rest : List Code} {n : Nat} (hn : c.number? = some n)
    (h : f.visited.mem n = true) : Grows place table f f (c :: rest) :=
  ⟨.refl f, .entered hn h, fun _ hm => .inl hm⟩

/-- Code that comes through at once is followed if what comes after it is. -/
theorem Grows.of_steps {c : Code} {rest codes : List Code} (hg : Grows place table f g codes)
    (hc : ∀ chars, c ≠ .set chars)
    (h : ∀ codes', Step place.before place.after (c :: rest) codes' → codes' = codes) :
    Grows place table f g (c :: rest) where
  le := hg.le
  covers := .steps hc fun codes' hs => h codes' hs ▸ hg.covers
  closed := hg.closed

end Front

open Front (Grows)

/-- Following code makes a front grow, if following what comes after it does. A loop is entered
before its body is followed, so that its next round ends there. -/
theorem Code.reach_grows (c : Code) {rest : List Code} {next : Trace → Front → Front}
    {f : Front} (hc : c.Numbered table rest)
    (hnext : ∀ t g, f.Le g → Grows place table g (next t g) rest) (t : Trace) :
    Grows place table f (c.reach place rest next t f) (c :: rest) := by
  induction c generalizing rest next f t with
  | empty => exact (hnext t f (.refl f)).of_steps (by simp) (by rintro _ ⟨⟩; rfl)
  | set chars => exact Front.wait_grows chars rest t
  | assertion a =>
    unfold Code.reach
    split_ifs with ha
    · exact (hnext t f (.refl f)).of_steps (by simp) (by rintro _ ⟨⟩; rfl)
    · -- Where the assertion does not hold, nothing comes next.
      refine ⟨.refl f, .steps (by simp) ?_, fun n hn => .inl hn⟩
      intro codes hs
      cases hs with
      | assertion h => exact absurd h ha
  | opening => exact (hnext _ f (.refl f)).of_steps (by simp) (by rintro _ ⟨⟩; rfl)
  | closing index => exact (hnext _ f (.refl f)).of_steps (by simp) (by rintro _ ⟨⟩; rfl)
  | seq a b iha ihb =>
    obtain ⟨ha, hb⟩ := hc
    have hall := iha ha (fun t g hg => ihb hb (fun t g' hg' => hnext t g' (hg.trans hg')) t) t
    exact hall.of_steps (by simp) (by rintro _ ⟨⟩; rfl)
  | fork n a b iha ihb =>
    unfold Code.reach
    split_ifs with hv
    · exact .of_entered rfl hv
    · have hfirst := iha hc.2.1 (fun t g hg => hnext t g ((Front.enter_le n).trans hg)) t
      have hsecond := ihb hc.2.2
        (fun t g hg => hnext t g ((Front.enter_le n).trans (hfirst.le.trans hg))) t
      refine .of_enter hc rfl (hfirst.le.trans hsecond.le) (hfirst.closed_trans hsecond) ?_
      rintro _ ⟨⟩
      · exact hfirst.covers.mono hsecond.le
      · exact hsecond.covers
  | loop n body greedy ih =>
    -- A round that comes back finds the loop entered.
    have hbody : ∀ g : Front, g.visited.mem n = true →
        Grows place table g (body.reach place (.loop n body greedy :: rest) (fun _ f => f) t g)
          (body :: .loop n body greedy :: rest) :=
      fun g hg => ih hc.2 (fun _ _ hle => .of_entered rfl (hle.visited n hg)) t
    unfold Code.reach
    split_ifs with hv
    · exact .of_entered rfl hv
    · have hround := hbody (f.enter n) (Front.mem_enter n)
      have hleave := hnext t _ ((Front.enter_le n).trans hround.le)
      refine .of_enter hc rfl (hround.le.trans hleave.le) (hround.closed_trans hleave) ?_
      rintro _ ⟨⟩
      · exact hround.covers.mono hleave.le
      · exact hleave.covers
    · have hleave := hnext t _ (Front.enter_le n)
      have hround := hbody _ (hleave.le.visited n (Front.mem_enter n))
      refine .of_enter hc rfl (hleave.le.trans hround.le) (hleave.closed_trans hround) ?_
      rintro _ ⟨⟩
      · exact hround.covers
      · exact hleave.covers.mono hround.le

/-- Following all that is to be run makes a front grow. The induction is on what is left. -/
theorem reachAll_grows {codes : List Code} (hcodes : NumberedAll table codes) (t : Trace)
    (f : Front) : Grows place table f (reachAll place codes t f) codes := by
  induction codes generalizing t f with
  | nil => exact Front.finish_grows _
  | cons c rest ih =>
    obtain ⟨hc, hrest⟩ := hcodes
    exact c.reach_grows hc (fun t g _ => ih hrest t g) t

/-- A way that waits for the character `c` of the text `c :: (m ++ r)`, and takes `m` after it. -/
def Thread.TakesOn (t : Thread) (l : Text) (c : Char) (m r : Text) : Prop :=
  t.chars.mem c = true ∧ Runs t.rest (l ++ [c]) m r

/-- A run over what is covered comes to a match at the place, or to a way that waits there and goes
on to take the same text. -/
theorem exists_hit {codes : List Code} {l m r : Text} {f : Front}
    (hclosed : f.Closed (.between l (m ++ r)) table)
    (hcovers : f.Covers (.between l (m ++ r)) codes) (hcodes : NumberedAll table codes)
    (h : Runs codes l m r) :
    f.found.isSome = true ∨ ∃ t ∈ f.threads, ∃ c m', m = c :: m' ∧ t.TakesOn l c m' r := by
  induction h with
  | done =>
    cases hcovers with
    | found hm => exact .inl hm
  | take hc hrest _ =>
    cases hcovers with
    | found hm => exact .inl hm
    | waits ht => exact .inr ⟨_, ht, _, _, rfl, hc, hrest⟩
    | entered hn => cases hn
    | steps hset => exact absurd rfl (hset _)
  | step hs _ ih =>
    have hcodes' := hcodes.step hs
    cases hcovers with
    | found hm => exact .inl hm
    | waits => cases hs
    | entered hn hv =>
      -- All that comes next from its number has been followed.
      refine ih hclosed (hclosed _ hv _ ?_) hcodes'
      rw [hcodes.1.entry hn]
      exact hs
    | steps _ hnext => exact ih hclosed (hnext _ hs) hcodes'

/-! ## Preferred ways began no later -/

/-- All that a front holds began at the offset `s` or before. Of two ways that wait the preferred
one began no later than the other, and neither began later than the match. -/
structure Front.UpTo (s : Nat) (f : Front) : Prop where
  /-- The ways that wait. -/
  threads : ∀ t ∈ f.threads, t.trace.start ≤ s
  /-- They are in order, the preferred one last. -/
  sorted : f.threads.Pairwise fun t u => u.trace.start ≤ t.trace.start
  /-- The match. -/
  found : ∀ m, f.found = some m → m.span.start ≤ s ∧ ∀ t ∈ f.threads, t.trace.start ≤ m.span.start

/-- A later bound on the starts is a bound. -/
theorem Front.UpTo.mono {s s' : Nat} {f : Front} (hf : f.UpTo s) (h : s ≤ s') : f.UpTo s' where
  threads t ht := Nat.le_trans (hf.threads t ht) h
  sorted := hf.sorted
  found m hm := ⟨Nat.le_trans (hf.found m hm).1 h, (hf.found m hm).2⟩

/-- What a way comes to that began at `s` is added to what began no later. -/
theorem keeps_upTo (place : Place) (s : Nat) :
    Keeps place (fun _ t => t.start = s) (Front.UpTo s) where
  step _ ht := ht
  opening ht := ht
  closing := by
    rintro _ t index ht
    unfold Trace.closing
    cases t.opened <;> exact ht
  wait := by
    rintro f chars rest t hf rfl
    unfold Front.wait
    split_ifs with hm
    · exact hf
    · refine ⟨List.forall_mem_cons.mpr ⟨Nat.le_refl _, hf.threads⟩, ?_, ?_⟩
      · exact List.pairwise_cons.mpr ⟨hf.threads, hf.sorted⟩
      · intro m hfound
        exact absurd (Option.isSome_iff_exists.mpr ⟨m, hfound⟩) hm
  finish := by
    rintro f t hf rfl
    refine ⟨hf.threads, hf.sorted, forall_or hf.found ?_⟩
    rintro _ ⟨⟩
    exact ⟨Nat.le_refl _, hf.threads⟩
  enter _ hf := ⟨hf.threads, hf.sorted, hf.found⟩

/-- Ways that wait have only code left that stands under its numbers. -/
theorem keeps_numbered (place : Place) (table : Nat → List Code) :
    Keeps place (fun codes _ => NumberedAll table codes)
      (fun f => ∀ t ∈ f.threads, NumberedAll table t.rest) where
  step hs h := h.step hs
  opening h := h
  closing _ h := h
  wait := by
    rintro f chars rest t hf ⟨-, ht⟩
    unfold Front.wait
    split_ifs
    · exact hf
    · exact List.forall_mem_cons.mpr ⟨ht, hf⟩
  finish hf _ := hf
  enter _ hf := hf

/-- Ways in order are followed one after the other. For each of them there is the front that holds
what it and those before it have come to: that began no later than the way, and it covers it. -/
theorem foldl_covers {ways : List (List Code × Trace)}
    (hnumbered : ∀ way ∈ ways, NumberedAll table way.1)
    (hsorted : ways.Pairwise fun v w => v.2.start ≤ w.2.start) {f : Front} {s : Nat}
    (hs : ∀ way ∈ ways, s ≤ way.2.start) (hf : f.UpTo s) (hclosed : f.Closed place table) :
    f.Le (ways.foldl (fun f way => reachAll place way.1 way.2 f) f) ∧
      ∀ way ∈ ways, ∃ g : Front, g.Le (ways.foldl (fun f way => reachAll place way.1 way.2 f) f) ∧
        g.UpTo way.2.start ∧ g.Closed place table ∧ g.Covers place way.1 := by
  induction ways generalizing f s with
  | nil => exact ⟨.refl f, by simp⟩
  | cons way ways ih =>
    obtain ⟨hfirst, hsorted⟩ := List.pairwise_cons.mp hsorted
    have hgrows : Grows place table f _ way.1 :=
      reachAll_grows (hnumbered way (.head _)) way.2 f
    have hg := (keeps_upTo place way.2.start).reachAll way.1 rfl (hf.mono (hs way (.head _)))
    have hgclosed := hgrows.closed_of_closed hclosed
    obtain ⟨hle, hrest⟩ :=
      ih (fun w hw => hnumbered w (.tail _ hw)) hsorted hfirst hg hgclosed
    refine ⟨hgrows.le.trans hle, List.forall_mem_cons.mpr ⟨?_, hrest⟩⟩
    exact ⟨_, hle, hg, hgclosed, hgrows.covers⟩

/-- Ways that are followed in the order of their starts leave a front that is bounded by the last of
them. -/
theorem foldl_upTo {ways : List (List Code × Trace)}
    (hsorted : ways.Pairwise fun v w => v.2.start ≤ w.2.start) {f : Front} {s s' : Nat}
    (hs : ∀ way ∈ ways, s ≤ way.2.start) (hs' : ∀ way ∈ ways, way.2.start ≤ s') (hle : s ≤ s')
    (hf : f.UpTo s) : (ways.foldl (fun f way => reachAll place way.1 way.2 f) f).UpTo s' := by
  induction ways generalizing f s with
  | nil => exact hf.mono hle
  | cons way ways ih =>
    obtain ⟨hfirst, hsorted⟩ := List.pairwise_cons.mp hsorted
    have hg := (keeps_upTo place way.2.start).reachAll way.1 rfl (hf.mono (hs way (.head _)))
    exact ih hsorted hfirst (fun w hw => hs' w (.tail _ hw)) (hs' way (.head _)) hg

/-! ## The search -/

/-- A search that stands behind `l`: its ways are in order, and none of them began later than the
match that has been found. -/
structure Underway (table : Nat → List Code) (l : Text) (ways : List (List Code × Trace))
    (best : Option Match) : Prop where
  /-- What the ways are to run stands under its numbers. -/
  numbered : ∀ way ∈ ways, NumberedAll table way.1
  /-- The ways are in order. -/
  sorted : ways.Pairwise fun v w => v.2.start ≤ w.2.start
  /-- They have begun. -/
  start_le : ∀ way ∈ ways, way.2.start ≤ byteLength l
  /-- The match began no earlier than they did. -/
  best_le : ∀ b, best = some b →
    b.span.start ≤ byteLength l ∧ ∀ way ∈ ways, way.2.start ≤ b.span.start

/-- A match that starts at the offset `s` or before is promised: it has been found, or a way goes on
to it, or it lies ahead and starts at `s`. -/
inductive Promised (code : Code) (ways : List (List Code × Trace)) (best : Option Match)
    (l rest : Text) (s : Nat) : Prop where
  /-- It has been found. -/
  | found {b : Match} (hb : best = some b) (hs : b.span.start ≤ s)
  /-- A way goes on to it. -/
  | under {way : List Code × Trace} {m r : Text} (hway : way ∈ ways) (hs : way.2.start ≤ s)
    (hrest : rest = m ++ r) (h : Runs way.1 l m r)
  /-- It lies ahead. -/
  | ahead {l' m r : Text} (hrest : rest = l' ++ m ++ r) (hs : byteLength (l ++ l') = s)
    (h : Runs [code] (l ++ l') m r)

/-- When no way is left, no match starts earlier than the one that has been found. -/
theorem Promised.le_of_done {code : Code} {ways : List (List Code × Trace)} {best : Option Match}
    {l rest : Text} {s : Nat} (hp : Promised code ways best l rest s) {b : Match}
    (hb : best = some b) (hways : ways = []) (hle : b.span.start ≤ byteLength l) :
    b.span.start ≤ s := by
  cases hp with
  | found hb' hs =>
    obtain rfl := Option.some.inj (hb'.symm.trans hb)
    exact hs
  | under hway =>
    rw [hways] at hway
    cases hway
  | ahead _ hs _ =>
    rw [Text.byteLength_append] at hs
    omega

namespace Underway

variable {code : Code} {l rest : Text} {ways : List (List Code × Trace)} {best : Option Match}

/-- The way that begins here comes after the others. -/
theorem waysAt (hu : Underway table l ways best) (hcode : code.Numbered table []) (r : Text) :
    Underway table l (Pattern.waysAt (.between l r) code best ways) best := by
  have hbegin : NumberedAll table [code] := ⟨hcode, trivial⟩
  refine ⟨forall_waysAt hu.numbered hbegin, ?_, forall_waysAt hu.start_le (Nat.le_refl _), ?_⟩
  · unfold Pattern.waysAt
    split_ifs
    · exact hu.sorted
    · refine List.pairwise_append.mpr ⟨hu.sorted, List.pairwise_singleton _ _, ?_⟩
      intro v hv w hw
      rw [List.mem_singleton.mp hw]
      exact hu.start_le v hv
  · rintro b rfl
    exact hu.best_le b rfl

/-- What is found at the place began there or before, and no later than an earlier match. -/
theorem upTo_gather (hu : Underway table l ways best) (hcode : code.Numbered table []) (r : Text) :
    (Front.gather (.between l r) code best ways).UpTo (byteLength l) ∧
      ∀ b, best = some b → (Front.gather (.between l r) code best ways).UpTo b.span.start := by
  have hall := hu.waysAt hcode r
  have hempty : ({} : Front).UpTo 0 := ⟨by simp, List.Pairwise.nil, by simp⟩
  rw [Front.gather_eq_foldl]
  constructor
  · exact foldl_upTo hall.sorted (fun _ _ => Nat.zero_le _) hall.start_le (Nat.zero_le _) hempty
  · intro b hb
    exact foldl_upTo hall.sorted (fun _ _ => Nat.zero_le _) (hall.best_le b hb).2 (Nat.zero_le _)
      hempty

/-- What a way goes on to is found at the place, or a way that waits there goes on to it. -/
theorem hit (hu : Underway table l ways best) (hcode : code.Numbered table [])
    {way : List Code × Trace} {m r : Text}
    (hway : way ∈ Pattern.waysAt (.between l (m ++ r)) code best ways) (h : Runs way.1 l m r) :
    (∃ b, (Front.gather (.between l (m ++ r)) code best ways).found = some b ∧
        b.span.start ≤ way.2.start) ∨
      ∃ t ∈ (Front.gather (.between l (m ++ r)) code best ways).threads,
        t.trace.start ≤ way.2.start ∧ ∃ c m', m = c :: m' ∧ t.TakesOn l c m' r := by
  have hall := hu.waysAt hcode (m ++ r)
  have hempty : ({} : Front).UpTo 0 := ⟨by simp, List.Pairwise.nil, by simp⟩
  have hclosed : ({} : Front).Closed (.between l (m ++ r)) table := by
    intro n hn
    simp [Visited.mem] at hn
  obtain ⟨-, hcovers⟩ :=
    foldl_covers hall.numbered hall.sorted (fun _ _ => Nat.zero_le _) hempty hclosed
  obtain ⟨g, hle, hupTo, hgclosed, hcovered⟩ := hcovers way hway
  rw [Front.gather_eq_foldl]
  rcases exists_hit hgclosed hcovered (hall.numbered way hway) h with hm | ⟨t, ht, hon⟩
  · obtain ⟨b, hb⟩ := Option.isSome_iff_exists.mp hm
    exact .inl ⟨b, hle.found b hb, (hupTo.found b hb).1⟩
  · exact .inr ⟨t, hle.threads t ht, hupTo.threads t ht, hon⟩

/-- The search at the next place. -/
theorem next (hu : Underway table l ways best) (hcode : code.Numbered table []) (c : Char)
    {f : Front} (hf : Front.gather (.between l (c :: rest)) code best ways = f) :
    Underway table (l ++ [c]) (f.advance c) (f.found.or best) := by
  have hnumbered : ∀ t ∈ f.threads, NumberedAll table t.rest := by
    rw [← hf]
    exact (keeps_numbered _ table).gather (by simp) hu.numbered ⟨hcode, trivial⟩
  obtain ⟨hupTo, hbest⟩ := hu.upTo_gather hcode (c :: rest)
  rw [hf] at hupTo hbest
  have hlen : byteLength l ≤ byteLength (l ++ [c]) := by simp
  have hways : ∀ {s}, (∀ t ∈ f.threads, t.trace.start ≤ s) →
      ∀ way ∈ f.advance c, way.2.start ≤ s := by
    intro s hs way hway
    obtain ⟨t, ht, -, rfl⟩ := Front.mem_advance.mp hway
    exact hs t ht
  refine ⟨?_, ?_, hways fun t ht => Nat.le_trans (hupTo.threads t ht) hlen, forall_or ?_ ?_⟩
  · intro way hway
    obtain ⟨t, ht, -, rfl⟩ := Front.mem_advance.mp hway
    exact hnumbered t ht
  · rw [Front.advance_eq, List.pairwise_reverse, List.pairwise_map]
    exact hupTo.sorted.filter _
  · intro m hm
    obtain ⟨hle, hthreads⟩ := hupTo.found m hm
    exact ⟨Nat.le_trans hle hlen, hways hthreads⟩
  · intro b hb
    exact ⟨Nat.le_trans (hu.best_le b hb).1 hlen, hways (hbest b hb).threads⟩

/-- What is promised is found at the place, or it is still promised behind the next character. -/
theorem settle (hu : Underway table l ways best) (hcode : code.Numbered table []) {s : Nat}
    (hp : Promised code ways best l rest s) {f : Front}
    (hf : Front.gather (.between l rest) code best ways = f) :
    (∃ b, f.found.or best = some b ∧ b.span.start ≤ s) ∨
      ∃ c rest', rest = c :: rest' ∧
        Promised code (f.advance c) (f.found.or best) (l ++ [c]) rest' s := by
  have hfound : ∀ b, f.found = some b → b.span.start ≤ s →
      ∃ b, f.found.or best = some b ∧ b.span.start ≤ s :=
    fun b hb hs => ⟨b, by rw [hb, Option.some_or], hs⟩
  have hbest : ∀ b, best = some b → b.span.start ≤ s →
      ∃ b, f.found.or best = some b ∧ b.span.start ≤ s := by
    intro b hb hs
    cases hm : f.found with
    | none => exact ⟨b, by rw [Option.none_or, hb], hs⟩
    | some m =>
      -- A match that is preferred to an earlier one began no later.
      have hupTo := (hu.upTo_gather hcode rest).2 b hb
      rw [hf] at hupTo
      exact ⟨m, rfl, Nat.le_trans (hupTo.found m hm).1 hs⟩
  have hhit : ∀ way ∈ Pattern.waysAt (.between l rest) code best ways, way.2.start ≤ s →
      ∀ m r, rest = m ++ r → Runs way.1 l m r →
      (∃ b, f.found.or best = some b ∧ b.span.start ≤ s) ∨
        ∃ c rest', rest = c :: rest' ∧
          Promised code (f.advance c) (f.found.or best) (l ++ [c]) rest' s := by
    rintro way hway hs m r rfl h
    rcases hu.hit hcode hway h with ⟨b, hb, hle⟩ | ⟨t, ht, hle, c, m', rfl, hc, hruns⟩
    · rw [hf] at hb
      exact .inl (hfound b hb (Nat.le_trans hle hs))
    · rw [hf] at ht
      exact .inr ⟨c, m' ++ r, rfl, .under (Front.mem_advance.mpr ⟨t, ht, hc, rfl⟩)
        (Nat.le_trans hle hs) rfl hruns⟩
  cases hp with
  | found hb hs => exact .inl (hbest _ hb hs)
  | under hway hs hrest h =>
    refine hhit _ ?_ hs _ _ hrest h
    unfold Pattern.waysAt
    split_ifs
    · exact hway
    · exact List.mem_append_left _ hway
  | ahead hrest hs h =>
    rename_i l' m r
    cases l' with
    | cons c l' =>
      rw [List.append_cons] at hs h
      exact .inr ⟨c, l' ++ m ++ r, hrest, .ahead rfl hs h⟩
    | nil =>
      rw [List.append_nil] at hs h
      cases hb : best with
      | some b =>
        rw [← hb]
        exact .inl (hbest b hb (hs ▸ (hu.best_le b hb).1))
      | none =>
        -- The match starts here, with the way that begins.
        rw [← hb]
        refine hhit ([code], .begin (byteLength l)) ?_ (Nat.le_of_eq hs) m r hrest h
        rw [hb]
        exact List.mem_append_right _ (List.mem_singleton_self _)

end Underway

/-- A search finds a match that starts no later than any that is promised. -/
theorem scan_leftmost {code : Code} (hcode : code.Numbered table []) {l rest : Text}
    {ways : List (List Code × Trace)} {best : Option Match} {s : Nat}
    (hu : Underway table l ways best) (hp : Promised code ways best l rest s) :
    ∃ m, scan code ways best l.getLast? (byteLength l) rest = some m ∧ m.span.start ≤ s := by
  induction rest generalizing l ways best with
  | nil =>
    rcases hu.settle hcode hp rfl with hm | ⟨c, rest', h, -⟩
    · exact hm
    · cases h
  | cons c rest ih =>
    have hnext := hu.next hcode c (f := Front.gather (.between l (c :: rest)) code best ways) rfl
    rw [scan_cons code ways best l c rest rfl]
    split_ifs with hdone
    · -- The search ends here with the match that it has.
      rw [Bool.and_eq_true, List.isEmpty_iff] at hdone
      obtain ⟨b, hb⟩ := Option.isSome_iff_exists.mp hdone.1
      refine ⟨b, hb, ?_⟩
      rcases hu.settle hcode hp rfl with ⟨b', hb', hs⟩ | ⟨c', rest', h, hp'⟩
      · obtain rfl := Option.some.inj (hb'.symm.trans hb)
        exact hs
      · obtain ⟨rfl, rfl⟩ := List.cons.inj h
        exact hp'.le_of_done hb hdone.2 (hnext.best_le b hb).1
    · rcases hu.settle hcode hp rfl with ⟨b, hb, hs⟩ | ⟨c', rest', h, hp'⟩
      · exact ih hnext (.found hb hs)
      · obtain ⟨rfl, rfl⟩ := List.cons.inj h
        exact ih hnext hp'

/-! ## Patterns -/

/-- If there is a match that does not start before the offset, one is found that starts no later. -/
theorem exists_findFrom {p : Pattern} {text : Text} {n : Nat} {s : Span}
    (hn : isBoundary text n = true) (hs : p.Matches text s) (hle : n ≤ s.start) :
    ∃ m, p.findFrom text n = some m ∧ m.span.start ≤ s.start := by
  obtain ⟨l, rest, rfl, rfl⟩ := Text.isBoundary_iff.mp hn
  obtain ⟨l₁, m, r, htext, hstart, -, htakes⟩ := hs
  -- The match lies ahead of the place where the search starts.
  rw [List.append_assoc] at htext
  rw [← hstart] at hle ⊢
  obtain ⟨l', rfl, rfl⟩ := Text.exists_middle htext hle
  obtain ⟨table, htable⟩ := p.exists_numbered_code
  have hu : Underway table l [] none := ⟨by simp, List.Pairwise.nil, by simp, by simp⟩
  have hp : Promised p.code [] none l (l' ++ (m ++ r)) (byteLength (l ++ l')) := by
    refine .ahead (List.append_assoc _ _ _).symm rfl ?_
    rw [runs_singleton_iff, takes_code]
    exact htakes
  rw [findFrom_append]
  exact scan_leftmost htable hu hp

/-- The match that is found is the leftmost. -/
theorem findFrom_le {p : Pattern} {text : Text} {n : Nat} {found : Match}
    (hfound : p.findFrom text n = some found) {s : Span} (hs : p.Matches text s)
    (hle : n ≤ s.start) : found.span.start ≤ s.start := by
  obtain ⟨m, hm, hstart⟩ := exists_findFrom (isBoundary_of_findFrom hfound) hs hle
  obtain rfl := Option.some.inj (hm.symm.trans hfound)
  exact hstart

end SourceText.Pattern
