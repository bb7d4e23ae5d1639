import SourceText.Proofs.Machine.Parser
import SourceText.Proofs.Machine.Underline

/-!
# Calls on the machine

A `Call` is anything that can be asked of a segment: of itself, of a matcher that has been made for
it and called any number of times, or of a parser that has. `Machine.Reaches d s` says that the
machine, when it is given the document `d` and some calls one after the other, comes to `s`. As long
as the coordinates of `d` can be counted, these are the segments of `d` (`Machine.reaches_iff`), and
each call on one of them comes to what it answers (`Machine.exec_eq`).

So no call has to fall back on an answer that is there only so that something is answered
(`Machine.calls_never_fall_back`). No sum and no difference is out of bounds either, and every call
comes to an end, underlining among them: a segment ends in a column before the greatest signed one,
wherever the document starts (`Machine.calls_never_overflow`).
-/

namespace SourceText

open Text (byteLength)

namespace Machine

/-- What can be asked of a segment, with the type of the answer. -/
inductive Call : Type → Type where
  /-- The characters. -/
  | text : Call Text
  /-- The length in bytes. -/
  | length : Call Nat
  /-- The location of the first character. -/
  | location : Call Location
  /-- The root of the document. -/
  | root : Call Segment
  /-- The part between two offsets. -/
  | substring (start stop : Nat) : Call (Except IndexError Segment)
  /-- The part from an offset on. -/
  | substringFrom (start : Nat) : Call (Except IndexError Segment)
  /-- The character that starts at an offset. -/
  | charAt (n : Nat) : Call (Except IndexError Char)
  /-- The character that ends at an offset. -/
  | charEndingAt (n : Nat) : Call (Except IndexError Char)
  /-- How many characters lie between two offsets. -/
  | codePointCount (start stop : Nat) : Call (Except IndexError Nat)
  /-- The character at an offset, as a segment. -/
  | charSegmentAt (n : Nat) : Call (Except IndexError Segment)
  /-- The empty segment after the last character. -/
  | tail : Call Segment
  /-- The document's character before the segment. -/
  | charBefore : Call Segment
  /-- The document's character after the segment. -/
  | charAfter : Call Segment
  /-- The segment without its blank edges. -/
  | trim : Call Segment
  /-- The pieces between the matches of a pattern. -/
  | split (p : Pattern) (limit : SplitLimit) : Call (List Segment)
  /-- The pieces between the matches of a pattern that is given as a text. -/
  | splitText (separator : Text) (limit : SplitLimit) :
      Call (Except Pattern.SyntaxError (List Segment))
  /-- The lines. -/
  | lines : Call (List Segment)
  /-- The segment in its context. -/
  | underline (layout : Layout) : Call Text
  /-- A call on a matcher, after any others. -/
  | matching (p : Pattern) (ops : List Matcher.Op) (op : Matcher.Op) :
      Call (Matcher.Answer × Matcher)
  /-- A group of the current match of a matcher, after any calls on it. -/
  | group (p : Pattern) (ops : List Matcher.Op) (index : Nat) : Call (Option Segment)
  /-- The next character of a parser, after any calls on it. -/
  | current (ops : List Parser.Op) : Call (Option Char)
  /-- A call on a parser, after any others. -/
  | parsing (ops : List Parser.Op) (op : Parser.Op) : Call (Parser.Outcome × Parser)

/-- A matcher for a segment, after some calls on it. -/
def matcherAfter (s : Segment) (p : Pattern) (ops : List Matcher.Op) : Machine Matcher := do
  runMatcher (← newMatcher s p) ops

/-- A parser of a segment, after some calls on it. -/
def parserAfter (s : Segment) (ops : List Parser.Op) : Machine Parser :=
  runParser (.ofSegment s) ops

namespace Call

/-- What a call answers. -/
def answer (s : Segment) : {α : Type} → Call α → α
  | _, .text => s.text
  | _, .length => s.length
  | _, .location => s.location
  | _, .root => s.root
  | _, .substring start stop => s.substring start stop
  | _, .substringFrom start => s.substringFrom start
  | _, .charAt n => s.charAt n
  | _, .charEndingAt n => s.charEndingAt n
  | _, .codePointCount start stop => s.codePointCount start stop
  | _, .charSegmentAt n => s.charSegmentAt n
  | _, .tail => s.tail
  | _, .charBefore => s.charBefore
  | _, .charAfter => s.charAfter
  | _, .trim => s.trim
  | _, .split p limit => s.split p limit
  | _, .splitText separator limit => s.splitText separator limit
  | _, .lines => s.lines
  | _, .underline layout => s.underline layout
  | _, .matching p ops op => ((s.matcher p).run ops).perform op
  | _, .group p ops index => ((s.matcher p).run ops).groupAt? index
  | _, .current ops => ((Parser.ofSegment s).run ops).current?
  | _, .parsing ops op => ((Parser.ofSegment s).run ops).perform op

/-- What the machine does for a call. -/
noncomputable def exec (s : Segment) : {α : Type} → Call α → Machine α
  | _, .text => Machine.text s
  | _, .length => Machine.length s
  | _, .location => pure s.location
  | _, .root => pure s.root
  | _, .substring start stop => Machine.substring s start stop
  | _, .substringFrom start => Machine.substringFrom s start
  | _, .charAt n => Machine.charAt s n
  | _, .charEndingAt n => Machine.charEndingAt s n
  | _, .codePointCount start stop => Machine.codePointCount s start stop
  | _, .charSegmentAt n => Machine.charSegmentAt s n
  | _, .tail => Machine.tail s
  | _, .charBefore => Machine.charBefore s
  | _, .charAfter => Machine.charAfter s
  | _, .trim => Machine.trim s
  | _, .split p limit => Machine.split s p limit
  | _, .splitText separator limit => Machine.splitText s separator limit
  | _, .lines => Machine.lines s
  | _, .underline layout => Machine.underline s layout
  | _, .matching p ops op => do performMatcher (← matcherAfter s p ops) op
  | _, .group p ops index => do groupAt (← matcherAfter s p ops) index
  | _, .current ops => do Machine.current (← parserAfter s ops)
  | _, .parsing ops op => do performParser (← parserAfter s ops) op

/-- The segments in an answer. -/
def segments : {α : Type} → Call α → α → List Segment
  | _, .text, _ | _, .length, _ | _, .location, _ | _, .charAt _, _ | _, .charEndingAt _, _
  | _, .codePointCount _ _, _ | _, .underline _, _ | _, .matching _ _ _, _ | _, .current _, _ => []
  | _, .root, t | _, .tail, t | _, .charBefore, t | _, .charAfter, t | _, .trim, t => [t]
  | _, .substring _ _, a | _, .substringFrom _, a | _, .charSegmentAt _, a => a.toOption.toList
  | _, .split _ _, pieces | _, .lines, pieces => pieces
  | _, .splitText _ _, a => a.toOption.getD []
  | _, .group _ _ _, t? => t?.toList
  | _, .parsing _ _, a => a.1.segment?.toList

end Call

/-- The root of a document, whose end is found by scanning. -/
def newRoot (d : Document) : Machine Segment := do
  return { Segment.ofDocument d with stop := ← endPosition d.text d.start }

/-- The machine comes to the segment by any number of calls, the first of them on the root. -/
inductive Reaches (d : Document) : Segment → Prop where
  /-- The root. -/
  | root {s : Segment} (h : (newRoot d).Returns s) : Reaches d s
  /-- One call more. -/
  | call {s t : Segment} {α : Type} {c : Call α} {a : α} (hs : Reaches d s)
      (h : (c.exec s).Returns a) (ht : t ∈ c.segments a) : Reaches d t

/-! ## What calls come to -/

variable {d : Document} {s t : Segment} {α : Type}

/-- The root is made, unless the machine cannot count to the last character of the document. -/
theorem newRoot_comesTo (hbytes : byteLength d.text ≤ maxSignedCol) :
    (newRoot d).ComesTo (CharsCounted d.text d.start) (Segment.ofDocument d) :=
  (endPosition_comesTo hbytes).bind (.pure _)

/-- The root of a document that fits is made. -/
theorem newRoot_eq (hd : d.Fits) : newRoot d = pure (Segment.ofDocument d) :=
  (newRoot_comesTo hd.bytes).of_sure hd.charsCounted

/-- Calls on a new matcher come to one in which the next call can go on. -/
theorem matcherAfter_eq (hs : s.InMemory) (p : Pattern) (ops : List Matcher.Op) :
    matcherAfter s p ops = pure ((s.matcher p).run ops) ∧ ((s.matcher p).run ops).Coherent ∧
      ((s.matcher p).run ops).segment = s := by
  have hm : (s.matcher p).Coherent := Matcher.new_coherent hs.placed p
  refine ⟨?_, Matcher.run_coherent hm ops, Matcher.segment_run _ ops⟩
  rw [matcherAfter, newMatcher_eq hs, pure_bind, runMatcher_eq hm hs]

/-- Calls on a new parser come to one in which the next call can go on. -/
theorem parserAfter_comesTo (hs : s.InMemory) (ops : List Parser.Op) :
    (parserAfter s ops).ComesTo s.CharsCounted ((Parser.ofSegment s).run ops) ∧
      ((Parser.ofSegment s).run ops).Placed ∧ ((Parser.ofSegment s).run ops).segment = s := by
  have hp := Parser.ofSegment_placed hs.placed
  obtain ⟨hplaced, hsegment⟩ := Parser.run_placed hp ops
  exact ⟨runParser_comesTo hp hs ops, hplaced, hsegment⟩

/-- A call on a segment in memory comes to what it answers, or meets a number that is no count. If
the segment fits, it comes to its answer. -/
theorem exec_comesTo (hs : s.InMemory) (c : Call α) : (c.exec s).ComesTo s.Fits (c.answer s) := by
  have hchars : s.Fits → s.CharsCounted := Segment.Fits.charsCounted
  have hboth : s.Fits → s.CharsCounted ∧ s.root.CharsCounted :=
    fun h => ⟨h.charsCounted, h.root.charsCounted⟩
  -- Pieces of a segment that fits fit too.
  have hpieces {t : Segment} (h : s.Fits) (ht : t = s ∨ s.IsPart t) : t.start.Counted := by
    rcases ht with rfl | ht
    · exact h.start_counted
    · exact (ht.fits h).start_counted
  cases c with
  | text => exact .of_eq (text_eq hs)
  | length => exact .of_eq (length_eq hs)
  | location => exact .pure _
  | root => exact .pure _
  | substring start stop => exact (substring_comesTo hs start stop).mono hchars
  | substringFrom start => exact (substringFrom_comesTo hs start).mono hchars
  | charAt n => exact .of_eq (charAt_eq hs n)
  | charEndingAt n => exact .of_eq (charEndingAt_eq hs n)
  | codePointCount start stop => exact .of_eq (codePointCount_eq hs start stop)
  | charSegmentAt n => exact (charSegmentAt_comesTo hs n).mono hchars
  | tail => exact (tail_comesTo hs).mono hchars
  | charBefore => exact (charBefore_comesTo hs).mono hboth
  | charAfter => exact (charAfter_comesTo hs).mono hboth
  | trim => exact (trim_comesTo hs).mono hchars
  | split p limit =>
    exact (split_comesTo hs p limit).mono fun h =>
      ⟨hchars h, fun t ht => hpieces h (Segment.isPart_split hs.placed ht)⟩
  | splitText separator limit =>
    exact (splitText_comesTo hs separator limit).mono fun h =>
      ⟨hchars h, fun pieces heq t ht => hpieces h (Segment.isPart_splitText hs.placed heq ht)⟩
  | lines =>
    exact (lines_comesTo hs).mono fun h =>
      ⟨hchars h, fun t ht => hpieces h (Segment.isPart_lines hs.placed ht)⟩
  | underline layout => exact (underline_comesTo hs layout).mono Segment.Fits.document
  | matching p ops op =>
    obtain ⟨hrun, hm, hsegment⟩ := matcherAfter_eq hs p ops
    rw [Call.exec, hrun, pure_bind, performMatcher_eq hm (by rw [hsegment]; exact hs)]
    exact .pure _
  | group p ops index =>
    obtain ⟨hrun, hm, hsegment⟩ := matcherAfter_eq hs p ops
    rw [Call.exec, hrun, pure_bind]
    have hgroup := groupAt_comesTo hm (by rw [hsegment]; exact hs) index
    rw [hsegment] at hgroup
    exact hgroup.mono hchars
  | current ops =>
    obtain ⟨hrun, -, hsegment⟩ := parserAfter_comesTo hs ops
    refine (hrun.mono hchars).bind ?_
    rw [current_eq (by rw [hsegment]; exact hs)]
    exact .pure _
  | parsing ops op =>
    obtain ⟨hrun, hp, hsegment⟩ := parserAfter_comesTo hs ops
    have hop := performParser_comesTo hp (by rw [hsegment]; exact hs) op
    rw [hsegment] at hop
    exact (hrun.bind hop).mono hchars

/-- A call on a segment that fits comes to what it answers. -/
theorem exec_eq (hs : s.Fits) (c : Call α) : c.exec s = pure (c.answer s) :=
  (exec_comesTo hs.inMemory c).of_sure hs

/-! ## Where calls lead -/

/-- A call that may be refused answers with a segment or with none. -/
theorem mem_toOption_iff {ε : Type} {a : Except ε Segment} :
    t ∈ a.toOption.toList ↔ a = .ok t := by
  cases a <;> simp [Except.toOption, eq_comm]

/-- The segments in the answer to a call are what an operation answers with. -/
theorem derives_of_mem_segments (c : Call α) (h : t ∈ c.segments (c.answer s)) : s.Derives t := by
  cases c with
  | text | length | location | charAt | charEndingAt | codePointCount | underline | matching
  | current => cases h
  | root => exact List.mem_singleton.mp h ▸ .root
  | tail => exact List.mem_singleton.mp h ▸ .tail
  | charBefore => exact List.mem_singleton.mp h ▸ .charBefore
  | charAfter => exact List.mem_singleton.mp h ▸ .charAfter
  | trim => exact List.mem_singleton.mp h ▸ .trim
  | substring start stop => exact .substring (mem_toOption_iff.mp h)
  | substringFrom start => exact .substringFrom (mem_toOption_iff.mp h)
  | charSegmentAt n => exact .charSegmentAt (mem_toOption_iff.mp h)
  | split p limit => exact .split h
  | splitText separator limit =>
    simp only [Call.segments, Call.answer] at h
    cases hpieces : s.splitText separator limit with
    | error e =>
      rw [hpieces] at h
      cases h
    | ok pieces =>
      rw [hpieces] at h
      exact .splitText hpieces h
  | lines => exact .lines h
  | group p ops index => exact .group (Option.mem_toList.mp h)
  | parsing ops op => exact .parsed (Option.mem_toList.mp h)

/-- What an operation answers with is in the answer to a call. -/
theorem exists_call (h : s.Derives t) :
    ∃ (α : Type) (c : Call α), t ∈ c.segments (c.answer s) := by
  cases h with
  | root => exact ⟨_, .root, List.mem_singleton_self _⟩
  | @substring start stop _ h => exact ⟨_, .substring start stop, mem_toOption_iff.mpr h⟩
  | @substringFrom start _ h => exact ⟨_, .substringFrom start, mem_toOption_iff.mpr h⟩
  | @charSegmentAt n _ h => exact ⟨_, .charSegmentAt n, mem_toOption_iff.mpr h⟩
  | tail => exact ⟨_, .tail, List.mem_singleton_self _⟩
  | charBefore => exact ⟨_, .charBefore, List.mem_singleton_self _⟩
  | charAfter => exact ⟨_, .charAfter, List.mem_singleton_self _⟩
  | trim => exact ⟨_, .trim, List.mem_singleton_self _⟩
  | @split p limit _ h => exact ⟨_, .split p limit, h⟩
  | @splitText separator limit pieces _ h ht =>
    refine ⟨_, .splitText separator limit, ?_⟩
    simp only [Call.segments, Call.answer, h]
    exact ht
  | lines h => exact ⟨_, .lines, h⟩
  | @group p ops index _ h => exact ⟨_, .group p ops index, Option.mem_toList.mpr h⟩
  | @parsed ops op _ h => exact ⟨_, .parsing ops op, Option.mem_toList.mpr h⟩

/-- The machine comes to the segments that operations lead to, and to no others. -/
theorem reaches_iff (hd : d.Fits) : Reaches d s ↔ Segment.Reachable d s := by
  constructor
  · intro h
    induction h with
    | root h =>
      rw [newRoot_eq hd, returns_pure_iff] at h
      exact h ▸ .root
    | call hs h ht ih =>
      rw [exec_eq (ih.fits hd), returns_pure_iff] at h
      subst h
      exact .step ih (derives_of_mem_segments _ ht)
  · intro h
    induction h with
    | root =>
      refine .root ?_
      rw [newRoot_eq hd]
      exact returns_pure _
    | step hs h ih =>
      obtain ⟨α, c, ht⟩ := exists_call h
      refine .call ih ?_ ht
      rw [exec_eq (hs.fits hd)]
      exact returns_pure _

/-- Calls on segments that the machine comes to return what they answer, and meet no fault. -/
theorem exec_safe (hd : d.Fits) (h : Reaches d s) (c : Call α) :
    (c.exec s).Returns (c.answer s) ∧ ∀ f, ¬ (c.exec s).Meets f := by
  rw [exec_eq (((reaches_iff hd).mp h).fits hd)]
  exact ⟨returns_pure _, not_meets_pure _⟩

/-! ## Safety -/

/-- As long as the coordinates of a document can be counted, no call falls back on an answer that is
there only so that something is answered: slices are taken between boundaries in order, locators
move forward, the column past an end is not negative, there is a character before a segment that
does not start its document and one after a segment that does not end it, searches start in the
region, and wherever a parser stands there is something to skip, to report, to take and to match. -/
theorem calls_never_fall_back (hd : d.Fits) :
    (∀ f, f.isArithmetic = false → ¬ (newRoot d).Meets f) ∧
      ∀ s, Reaches d s → ∀ (α : Type) (c : Call α), (c.exec s).Returns (c.answer s) ∧
        ∀ f, f.isArithmetic = false → ¬ (c.exec s).Meets f := by
  constructor
  · intro f _
    rw [newRoot_eq hd]
    exact not_meets_pure _ f
  · intro s hs α c
    obtain ⟨hreturns, hmeets⟩ := exec_safe hd hs c
    exact ⟨hreturns, fun f _ => hmeets f⟩

/-- The line feed of a pair has the carriage return before it, and the machine finds it there. -/
theorem calls_never_fall_back_in_pair : ∃ s,
    Reaches ⟨['é', '\r', '\n'], [], ⟨0, 0⟩⟩ s ∧ s.text = ['\n'] ∧ s.charBefore.text = ['\r'] ∧
      (Call.charBefore.exec s).Returns s.charBefore ∧
      ¬ (Call.charBefore.exec s).Meets .charBefore := by
  have hd : Document.Fits ⟨['é', '\r', '\n'], [], ⟨0, 0⟩⟩ :=
    fits_of_length_le (by decide) (by decide) (by decide)
  obtain ⟨t, ht⟩ : ∃ t,
      (Segment.ofDocument ⟨['é', '\r', '\n'], [], ⟨0, 0⟩⟩).substring 3 4 = .ok t := ⟨_, rfl⟩
  have hs := (reaches_iff hd).mpr (.step .root (.substring ht))
  obtain ⟨hreturns, hmeets⟩ := (calls_never_fall_back hd).2 t hs _ .charBefore
  refine ⟨t, hs, ?_, ?_, hreturns, hmeets .charBefore rfl⟩
  all_goals
    cases ht
    decide

/-- If lines and columns can be counted, whatever the column is that the document starts in, no sum
and no difference is out of bounds, and each call comes to an end. No segment ends in the greatest
signed column, so the columns up to its end can be marked from any column on. -/
theorem calls_never_overflow (hbytes : byteLength d.text ≤ maxSignedCol)
    (hline : d.start.line + (LineBreak.spans d.text).length ≤ maxCount)
    (hcol : d.start.col + d.text.length ≤ maxCount) :
    (newRoot d).Returns (.ofDocument d) ∧
      (∀ f, f.isArithmetic = true → ¬ (newRoot d).Meets f) ∧
      ∀ s, Reaches d s →
        (∀ (α : Type) (c : Call α), (c.exec s).Returns (c.answer s) ∧
          ∀ f, f.isArithmetic = true → ¬ (c.exec s).Meets f) ∧
        s.stop.col ≤ (maxSignedCol : Int) - 1 ∧
        ∀ base line marker col marks,
          (∃ marked, (markThrough base line marker s.stop.col col marks).Returns marked) ∧
            ∀ f, f.isArithmetic = true →
              ¬ (markThrough base line marker s.stop.col col marks).Meets f := by
  have hd : d.Fits := fits_of_length_le hbytes hline hcol
  refine ⟨?_, fun f _ => ?_, fun s hs => ⟨fun α c => ?_, ?_, fun base line marker col marks => ?_⟩⟩
  · rw [newRoot_eq hd]
    exact returns_pure _
  · rw [newRoot_eq hd]
    exact not_meets_pure _ f
  · obtain ⟨hreturns, hmeets⟩ := exec_safe hd hs c
    exact ⟨hreturns, fun f _ => hmeets f⟩
  · obtain ⟨-, hstop⟩ := Segment.col_stop_lt (((reaches_iff hd).mp hs).fits hd).placed
    omega
  · obtain ⟨-, hstop⟩ := Segment.col_stop_lt (((reaches_iff hd).mp hs).fits hd).placed
    rw [markThrough_eq base line marker hstop]
    exact ⟨⟨_, returns_pure _⟩, fun f _ => not_meets_pure _ f⟩

/-- A document may start in a column that is no signed one. It ends in the column before the
greatest of these, and it is underlined as if it were empty. -/
theorem calls_never_overflow_past_signed :
    let d : Document := ⟨['a', 'b'], [], ⟨0, maxSignedCol + 6⟩⟩
    (Segment.ofDocument d).stop.col = (maxSignedCol : Int) - 1 ∧
      ((Call.underline {}).exec (.ofDocument d)).Returns ['a', 'b', '\n', '^'] ∧
      ¬ ((Call.underline {}).exec (.ofDocument d)).Meets .count := by
  intro d
  obtain ⟨hroot, -, hall⟩ := @calls_never_overflow d (by decide) (by decide) (by decide)
  obtain ⟨hcalls, -, -⟩ := hall (.ofDocument d) (.root hroot)
  obtain ⟨hreturns, hmeets⟩ := hcalls _ (.underline {})
  have hanswer : Call.answer (.ofDocument d) (.underline {}) = ['a', 'b', '\n', '^'] := by
    decide +kernel
  rw [hanswer] at hreturns
  exact ⟨by decide +kernel, hreturns, hmeets .count rfl⟩

end Machine

end SourceText
