import Mathlib.Tactic.SplitIfs
import SourceText.Pattern.Basic
import SourceText.Proofs.Spans

/-!
# What a search finds lies in the text

`Step` is all that a way can do at one place. A property of ways that steps keep, and that the marks
of groups keep, holds of all ways that are under way at the place; `Keeps` says so once, and then
whatever is found there can be judged by what it comes of (`Keeps.gather`).

A search that starts at offset `low` finds a match between boundaries at or after `low`, and what
its groups recorded lies within it (`Pattern.findFrom_within`). The invariant is `Trace.Within`: all
offsets that a way remembers are boundaries between its start and the place where it stands. Code
remembers an offset only at the place where it runs (`Trace.Within.opening`,
`Trace.Within.closing`), so following a way keeps the invariant (`keeps_within`), and so does
letting it take a character (`Trace.Within.mono`). Nothing is asked of the code: no mark of a group,
wherever it stands, can name an offset that the way has not come by.

The matches that searches one after the other find are spans in order (`allMatches_inOrder`), as
each search starts where the match before has ended, or later.
-/

namespace SourceText

open Text (isBoundary byteLength)

namespace Pattern

/-- The match lies in a range of a text, and its groups lie in the match. -/
structure Match.Within (text : Text) (low high : Nat) (m : Match) : Prop where
  /-- The whole match. -/
  span : m.span.Inside text low high
  /-- Its groups. -/
  groups : ∀ g ∈ m.groups, g.2.Inside text m.span.start m.span.stop

/-- What a way remembers of how it came to the offset `place`: all of it lies between its start,
which is at or after `low`, and the place. -/
structure Trace.Within (text : Text) (low place : Nat) (t : Trace) : Prop where
  /-- The way began at a boundary in the range. -/
  begun : (⟨t.start, place⟩ : Span).Inside text low place
  /-- Open groups began on the way. -/
  opened : ∀ o ∈ t.opened, (⟨o, place⟩ : Span).Inside text t.start place
  /-- Groups lie on the way. -/
  groups : ∀ g ∈ t.groups, g.2.Inside text t.start place

/-- All that has been found at the offset `place` lies between `low` and the place. -/
structure Front.Within (text : Text) (low place : Nat) (f : Front) : Prop where
  /-- The ways that wait. -/
  threads : ∀ t ∈ f.threads, t.trace.Within text low place
  /-- The match that ends here. -/
  found : ∀ m, f.found = some m → m.Within text low place

variable {text : Text} {low : Nat}

/-- Of two matches the first that there is. -/
theorem forall_or {P : Match → Prop} {a b : Option Match} (ha : ∀ m, a = some m → P m)
    (hb : ∀ m, b = some m → P m) : ∀ m, a.or b = some m → P m := by
  intro m hm
  rcases Option.or_eq_some_iff.mp hm with hm | ⟨-, hm⟩
  · exact ha m hm
  · exact hb m hm

/-! ## Traces -/

namespace Trace.Within

variable {place : Nat} {t : Trace}

/-- A way begins with nothing to remember but its start. -/
theorem begin (hp : isBoundary text place) (hl : low ≤ place) :
    (Trace.begin place).Within text low place :=
  ⟨⟨hp, hp, hl, Nat.le_refl _, Nat.le_refl _⟩, by simp [Trace.begin], by simp [Trace.begin]⟩

/-- A group that is opened begins at the place. -/
theorem opening (h : t.Within text low place) : (t.opening place).Within text low place := by
  refine ⟨h.begun, ?_, h.groups⟩
  intro o ho
  rcases List.mem_cons.mp ho with rfl | ho
  · exact ⟨h.begun.stop, h.begun.stop, h.begun.le, Nat.le_refl _, Nat.le_refl _⟩
  · exact h.opened o ho

/-- A group that is closed reaches from where it was opened to the place. -/
theorem closing (h : t.Within text low place) (index : Nat) :
    (t.closing index place).Within text low place := by
  unfold Trace.closing
  cases ho : t.opened with
  | nil => exact h
  | cons start outer =>
    refine ⟨h.begun, fun o hmem => h.opened o (by rw [ho]; exact .tail _ hmem), ?_⟩
    intro g hg
    rcases List.mem_cons.mp hg with rfl | hg
    · exact h.opened start (by rw [ho]; exact .head _)
    · exact h.groups g hg

/-- A way that goes on to a later place still remembers what lies behind it. -/
theorem mono {place' : Nat} (h : t.Within text low place) (hle : place ≤ place')
    (hp : isBoundary text place') : t.Within text low place' := by
  refine ⟨⟨h.begun.start, hp, h.begun.low_le, Nat.le_trans h.begun.le hle, Nat.le_refl _⟩, ?_, ?_⟩
  · intro o ho
    have h := h.opened o ho
    exact ⟨h.start, hp, h.low_le, Nat.le_trans h.le hle, Nat.le_refl _⟩
  · intro g hg
    exact (h.groups g hg).mono (Nat.le_refl _) hle

/-- The match of a way lies where the way does. -/
theorem finish (h : t.Within text low place) : (t.finish place).Within text low place :=
  ⟨h.begun, h.groups⟩

end Trace.Within

/-! ## Fronts -/

namespace Front.Within

variable {place : Nat} {f : Front}

/-- In the beginning there is nothing to lie anywhere. -/
theorem empty : ({} : Front).Within text low place := ⟨by simp, by simp⟩

/-- A way may wait where it lies within the range. -/
theorem wait (h : f.Within text low place) {t : Thread} (ht : t.trace.Within text low place) :
    (f.wait t).Within text low place := by
  unfold Front.wait
  split_ifs
  · exact h
  · refine ⟨?_, h.found⟩
    intro u hu
    rcases List.mem_cons.mp hu with rfl | hu
    · exact ht
    · exact h.threads u hu

/-- A match may be kept that lies within the range. -/
theorem finish (h : f.Within text low place) {m : Match} (hm : m.Within text low place) :
    (f.finish m).Within text low place := by
  refine ⟨h.threads, forall_or h.found ?_⟩
  rintro _ ⟨⟩
  exact hm

/-- Entering a number moves nothing. -/
theorem enter (h : f.Within text low place) (number : Nat) :
    (f.enter number).Within text low place :=
  ⟨h.threads, h.found⟩

end Front.Within

/-! ## Following a way -/

/-- What is to be run, before and after one step between two characters. -/
inductive Step (before after : Option Char) : List Code → List Code → Prop where
  /-- Nothing goes on. -/
  | empty {rest : List Code} : Step before after (.empty :: rest) rest
  /-- An assertion goes on where it holds. -/
  | assertion {a : Assertion} {rest : List Code} (h : a.holds before after = true) :
    Step before after (.assertion a :: rest) rest
  /-- The start of a group goes on. -/
  | opening {rest : List Code} : Step before after (.opening :: rest) rest
  /-- The end of a group goes on. -/
  | closing {index : Nat} {rest : List Code} : Step before after (.closing index :: rest) rest
  /-- The second comes after the first. -/
  | seq {a b : Code} {rest : List Code} : Step before after (.seq a b :: rest) (a :: b :: rest)
  /-- A fork goes on with the first. -/
  | first {n : Nat} {a b : Code} {rest : List Code} :
    Step before after (.fork n a b :: rest) (a :: rest)
  /-- A fork goes on with the second. -/
  | second {n : Nat} {a b : Code} {rest : List Code} :
    Step before after (.fork n a b :: rest) (b :: rest)
  /-- A loop goes on with one more round, and comes back. -/
  | again {n : Nat} {body : Code} {greedy : Bool} {rest : List Code} :
    Step before after (.loop n body greedy :: rest) (body :: .loop n body greedy :: rest)
  /-- A loop ends. -/
  | leave {n : Nat} {body : Code} {greedy : Bool} {rest : List Code} :
    Step before after (.loop n body greedy :: rest) rest

/-- A property of ways that all steps at a place keep, and a property of fronts that is kept
whatever such a way comes to. -/
structure Keeps (place : Place) (way : List Code → Trace → Prop) (front : Front → Prop) :
    Prop where
  /-- Steps keep it. -/
  step : ∀ {codes codes' t}, Step place.before place.after codes codes' → way codes t →
    way codes' t
  /-- A group that is opened keeps it. -/
  opening : ∀ {codes t}, way codes t → way codes (t.opening place.offset)
  /-- A group that is closed keeps it. -/
  closing : ∀ {codes t} (index : Nat), way codes t → way codes (t.closing index place.offset)
  /-- The way comes to wait for a character. -/
  wait : ∀ {f chars rest t}, front f → way (.set chars :: rest) t → front (f.wait ⟨chars, rest, t⟩)
  /-- The way comes to an end. -/
  finish : ∀ {f t}, front f → way [] t → front (f.finish (t.finish place.offset))
  /-- A fork or a loop is entered. -/
  enter : ∀ {f} (number : Nat), front f → front (f.enter number)

namespace Keeps

variable {place : Place} {way : List Code → Trace → Prop} {front : Front → Prop}

/-- Following a way through code keeps what holds of the front, if going on after the code does. -/
theorem reach (K : Keeps place way front) (c : Code) {rest : List Code}
    {next : Trace → Front → Front} (hnext : ∀ t f, way rest t → front f → front (next t f))
    {t : Trace} {f : Front} (ht : way (c :: rest) t) (hf : front f) :
    front (c.reach place rest next t f) := by
  -- Whatever comes after a part of the code keeps it: first the other parts, and then `next`.
  induction c generalizing rest next t f with
  | empty => exact hnext t f (K.step .empty ht) hf
  | set chars => exact K.wait hf ht
  | assertion a =>
    unfold Code.reach
    split_ifs with ha
    · exact hnext t f (K.step (.assertion ha) ht) hf
    · exact hf
  | opening => exact hnext _ f (K.opening (K.step .opening ht)) hf
  | closing index => exact hnext _ f (K.closing index (K.step .closing ht)) hf
  | seq a b iha ihb => exact iha (fun t f ht hf => ihb hnext ht hf) (K.step .seq ht) hf
  | fork number a b iha ihb =>
    unfold Code.reach
    split_ifs
    · exact hf
    · -- The second way finds what the first has left.
      exact ihb hnext (K.step .second ht) (iha hnext (K.step .first ht) (K.enter number hf))
  | loop number body greedy ih =>
    have hbody : ∀ f, front f →
        front (body.reach place (.loop number body greedy :: rest) (fun _ f => f) t f) :=
      -- The body may come through, but it ends there: the loop has been entered.
      fun f hf => ih (fun _ _ _ hf => hf) (K.step .again ht) hf
    unfold Code.reach
    split_ifs
    · exact hf
    · exact hnext t _ (K.step .leave ht) (hbody _ (K.enter number hf))
    · exact hbody _ (hnext t _ (K.step .leave ht) (K.enter number hf))

/-- A property that steps and marks keep is kept while all that is to be run is followed. -/
theorem reachAll (K : Keeps place way front) (codes : List Code) {t : Trace} {f : Front}
    (ht : way codes t) (hf : front f) : front (reachAll place codes t f) := by
  induction codes generalizing t f with
  | nil => exact K.finish hf ht
  | cons c rest ih => exact K.reach c (fun t f ht hf => ih ht hf) ht hf

end Keeps

/-- The ways at a place: those that have come to it and, as long as nothing has been found, one that
begins. -/
def waysAt (place : Place) (code : Code) (best : Option Match) (ways : List (List Code × Trace)) :
    List (List Code × Trace) :=
  if best.isSome then ways else ways ++ [([code], .begin place.offset)]

/-- All of these are followed, one after the other. -/
theorem Front.gather_eq_foldl (place : Place) (code : Code) (best : Option Match)
    (ways : List (List Code × Trace)) :
    Front.gather place code best ways =
      (waysAt place code best ways).foldl
        (fun f way => Pattern.reachAll place way.1 way.2 f) {} := by
  unfold Front.gather waysAt
  split_ifs
  · rfl
  · rw [List.foldl_append]
    rfl

/-- The ways at a place are those under way and the one that begins there. -/
theorem forall_waysAt {place : Place} {code : Code} {best : Option Match}
    {ways : List (List Code × Trace)} {P : List Code × Trace → Prop}
    (hways : ∀ way ∈ ways, P way) (hbegin : P ([code], .begin place.offset)) :
    ∀ way ∈ waysAt place code best ways, P way := by
  unfold waysAt
  split_ifs
  · exact hways
  · intro way hway
    rcases List.mem_append.mp hway with hway | hway
    · exact hways way hway
    · rw [List.mem_singleton.mp hway]
      exact hbegin

/-- What all ways at a place keep holds of the front that is found there. -/
theorem Keeps.gather {place : Place} {way : List Code → Trace → Prop} {front : Front → Prop}
    (K : Keeps place way front) {code : Code} {best : Option Match}
    {ways : List (List Code × Trace)} (hempty : front {}) (hways : ∀ w ∈ ways, way w.1 w.2)
    (hbegin : way [code] (.begin place.offset)) : front (Front.gather place code best ways) := by
  rw [Front.gather_eq_foldl]
  have hall : ∀ w ∈ waysAt place code best ways, way w.1 w.2 := forall_waysAt hways hbegin
  generalize waysAt place code best ways = ways at hall
  generalize ({} : Front) = f at hempty
  clear hways
  induction ways generalizing f with
  | nil => exact hempty
  | cons w ways ih =>
    rw [List.foldl_cons]
    exact ih (fun w hw => hall w (.tail _ hw)) _ (K.reachAll _ (hall w (.head _)) hempty)

/-- The ways that lead on are those that wait for the character. -/
theorem Front.advance_eq (f : Front) (c : Char) :
    f.advance c = ((f.threads.filter fun t => t.chars.mem c).map fun t =>
      (t.rest, t.trace)).reverse := by
  have key : ∀ (threads : List Thread) (ways : List (List Code × Trace)),
      threads.foldl
          (fun ways t => if t.chars.mem c then (t.rest, t.trace) :: ways else ways) ways =
        ((threads.filter fun t => t.chars.mem c).map fun t => (t.rest, t.trace)).reverse ++
          ways := by
    -- The fold goes over the threads, and what it has gathered so far stays.
    intro threads
    induction threads with
    | nil => intro ways; rfl
    | cons t threads ih =>
      intro ways
      rw [List.foldl_cons, ih, List.filter_cons]
      split_ifs <;> simp
  rw [Front.advance, key, List.append_nil]

/-- A character lets through the ways that wait for it, with what they have left to run. -/
theorem Front.mem_advance {f : Front} {c : Char} {way : List Code × Trace} :
    way ∈ f.advance c ↔ ∃ t ∈ f.threads, t.chars.mem c = true ∧ way = (t.rest, t.trace) := by
  rw [Front.advance_eq, List.mem_reverse, List.mem_map]
  constructor
  · rintro ⟨t, ht, rfl⟩
    obtain ⟨ht, hc⟩ := List.mem_filter.mp ht
    exact ⟨t, ht, hc, rfl⟩
  · rintro ⟨t, ht, hc, rfl⟩
    exact ⟨t, List.mem_filter.mpr ⟨ht, hc⟩, rfl⟩

/-- What a way remembers is kept, whatever code it follows. -/
theorem keeps_within (place : Place) :
    Keeps place (fun _ t => t.Within text low place.offset)
      (Front.Within text low place.offset) where
  step _ ht := ht
  opening ht := ht.opening
  closing index ht := ht.closing index
  wait hf ht := hf.wait ht
  finish hf ht := hf.finish ht.finish
  enter number hf := hf.enter number

/-- All that is gathered at a place lies within the range. -/
theorem Front.gather_within (place : Place) (hp : isBoundary text place.offset)
    (hl : low ≤ place.offset) (code : Code) (best : Option Match) {ways : List (List Code × Trace)}
    (hways : ∀ way ∈ ways, way.2.Within text low place.offset) :
    (Front.gather place code best ways).Within text low place.offset :=
  (keeps_within place).gather .empty hways (.begin hp hl)

/-! ## Searches -/

/-- A search over what is left of a text finds a match that lies in the text. -/
theorem scan_within {code : Code} {l rest : Text} {ways : List (List Code × Trace)}
    {best : Option Match} {before : Option Char} {m : Match} (hl : low ≤ byteLength l)
    (hways : ∀ way ∈ ways, way.2.Within (l ++ rest) low (byteLength l))
    (hbest : ∀ b, best = some b → b.Within (l ++ rest) low (byteLength l))
    (h : scan code ways best before (byteLength l) rest = some m) :
    m.Within (l ++ rest) low (byteLength (l ++ rest)) := by
  -- A match found on the way is one found in the text.
  have widen : ∀ {n : Nat} {m : Match}, n ≤ byteLength (l ++ rest) →
      m.Within (l ++ rest) low n → m.Within (l ++ rest) low (byteLength (l ++ rest)) :=
    fun hn hm => ⟨hm.span.mono (Nat.le_refl _) hn, hm.groups⟩
  have hlen : byteLength l ≤ byteLength (l ++ rest) := by simp
  -- What has been searched moves from `rest` to `l`, so the text stays `l ++ rest`.
  induction rest generalizing l ways best before with
  | nil =>
    have hfront := Front.gather_within ⟨before, none, byteLength l⟩
      (Text.isBoundary_append l []) hl code best hways
    rw [scan] at h
    exact widen hlen (forall_or hfront.found hbest m h)
  | cons c rest ih =>
    have hfront := Front.gather_within ⟨before, some c, byteLength l⟩
      (Text.isBoundary_append l (c :: rest)) hl code best hways
    rw [scan] at h
    generalize Front.gather ⟨before, some c, byteLength l⟩ code best ways = front at hfront h
    have hbest' := forall_or hfront.found hbest
    split_ifs at h with hdone
    · exact widen hlen (hbest' m h)
    · -- The search goes on behind `c`.
      have hcut : l ++ c :: rest = l ++ [c] ++ rest := by simp
      have hnext : byteLength l + c.utf8Size = byteLength (l ++ [c]) := by simp
      have hstep : byteLength l ≤ byteLength (l ++ [c]) := by simp
      have hp : isBoundary (l ++ c :: rest) (byteLength (l ++ [c])) := by
        rw [hcut]
        exact Text.isBoundary_append _ _
      rw [hnext] at h
      rw [hcut] at hp hbest' hfront widen ⊢
      refine ih (Nat.le_trans hl hstep) ?_ ?_ h widen (by simp)
      · intro way hway
        obtain ⟨t, ht, -, rfl⟩ := Front.mem_advance.mp hway
        exact (hfront.threads t ht).mono hstep hp
      · intro b hb
        exact ⟨(hbest' b hb).span.mono (Nat.le_refl _) hstep, (hbest' b hb).groups⟩

/-- A search from an offset goes over the text behind it. -/
theorem findFrom_append (p : Pattern) (l r : Text) :
    p.findFrom (l ++ r) (byteLength l) = scan p.code [] none l.getLast? (byteLength l) r := by
  rw [findFrom, Text.drop?_append, Text.charBefore?_append]

/-- Only at a boundary something is found. -/
theorem isBoundary_of_findFrom {p : Pattern} {n : Nat} {m : Match}
    (h : p.findFrom text n = some m) : isBoundary text n = true := by
  rw [isBoundary]
  unfold findFrom at h
  cases hd : Text.drop? text n with
  | none => simp [hd] at h
  | some rest => rfl

/-- A match lies in the text, at or after the offset that was searched from, and its groups lie in
it. -/
theorem findFrom_within {p : Pattern} {n : Nat} {m : Match} (h : p.findFrom text n = some m) :
    m.Within text n (byteLength text) := by
  obtain ⟨l, r, rfl, rfl⟩ := Text.isBoundary_iff.mp (isBoundary_of_findFrom h)
  rw [findFrom_append] at h
  exact scan_within (Nat.le_refl _) (by simp) (by simp) h

/-! ## Searches one after the other -/

/-- The next search starts at a boundary that is not before the end of the match and not past the
limit. -/
theorem nextSearchStart_spec {found : Span} {limit next : Nat} (hstop : isBoundary text found.stop)
    (hlimit : found.stop ≤ limit) (h : nextSearchStart text found limit = some next) :
    found.stop ≤ next ∧ next ≤ limit ∧ isBoundary text next := by
  unfold nextSearchStart at h
  split_ifs at h
  · -- Behind an empty match it starts one character later, if there is one.
    obtain ⟨l, r, rfl, hl⟩ := Text.isBoundary_iff.mp hstop
    rw [← hl, Text.charAt?_append] at h
    obtain ⟨hmap, hle⟩ := Option.filter_eq_some_iff.mp h
    obtain ⟨c, hc, rfl⟩ := Option.map_eq_some_iff.mp hmap
    obtain ⟨r, rfl⟩ := List.head?_eq_some_iff.mp hc
    rw [← hl]
    refine ⟨Nat.le_add_right _ _, by simpa using hle, ?_⟩
    exact Text.isBoundary_iff.mpr ⟨l ++ [c], r, by simp, by simp⟩
  · obtain rfl : found.stop = next := Option.some.inj h
    exact ⟨Nat.le_refl _, hlimit, hstop⟩

/-- Searches one after the other find spans in order. -/
theorem matchesFrom_inOrder (p : Pattern) (text : Text) (n low : Nat) (start : Option Nat)
    (hstart : ∀ s, start = some s → low ≤ s) :
    Span.InOrder text low (p.matchesFrom text n start) := by
  induction n generalizing low start with
  | zero =>
    unfold matchesFrom
    trivial
  | succ n ih =>
    cases start with
    | none =>
      unfold matchesFrom
      trivial
    | some s =>
      unfold matchesFrom
      cases hm : p.findFrom text s with
      | none => trivial
      | some m =>
        have hspan := (findFrom_within hm).span
        refine ⟨⟨Nat.le_trans (hstart s rfl) hspan.low_le, hspan.le, hspan.start, hspan.stop⟩, ?_⟩
        exact ih _ _ fun s' hs' => (nextSearchStart_spec hspan.stop hspan.le_high hs').1

/-- All matches of a pattern are spans of the text in order. -/
theorem allMatches_inOrder (p : Pattern) (text : Text) :
    Span.InOrder text 0 (p.allMatches text) :=
  matchesFrom_inOrder p text _ 0 (some 0) (by simp)

end Pattern

end SourceText
