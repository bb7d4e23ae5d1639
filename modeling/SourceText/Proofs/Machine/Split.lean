import SourceText.Proofs.Enumeration
import SourceText.Proofs.Machine.Segment

/-!
# Splits on the machine

A split looks for separators, cuts the pieces in front of them, and walks through the text from one
piece to the next. The program looks for a separator when it needs one, so it may stop before the
last of them; here all of them are looked for, with each step that the program may take
(`Machine.searchAll`). That this comes to an end has to be shown, as no number of searches is given:
each of them starts at a later character than the one before.

A piece may start on a line to which the machine cannot count, behind a break that ends the segment.
If none does, a split comes to its pieces (`Machine.splitAround_comesTo`), and otherwise it meets a
number that is no count (`Machine.splitAround_meets`).
-/

namespace SourceText

open Text (byteLength utf8 isBoundary)

/-- No more matches are found than searches are made. -/
theorem Pattern.length_matchesFrom_le (p : Pattern) (text : Text) (n : Nat)
    (start : Option Nat) : (p.matchesFrom text n start).length ≤ n := by
  induction n generalizing start with
  | zero =>
    unfold matchesFrom
    exact Nat.le_refl _
  | succ n ih =>
    cases start with
    | none =>
      unfold matchesFrom
      exact Nat.zero_le _
    | some offset =>
      unfold matchesFrom
      cases p.findFrom text offset with
      | none => exact Nat.zero_le _
      | some found => exact Nat.succ_le_succ (ih _)

/-- A character occurs no more often than there are characters. -/
theorem Split.length_occurrences_le (c : Char) (offset : Nat) (text : Text) :
    (occurrences c offset text).length ≤ text.length := by
  induction text generalizing offset with
  | nil => exact Nat.le_refl _
  | cons a rest ih =>
    have hrest := ih (offset + a.utf8Size)
    rw [occurrences, List.length_cons]
    split_ifs
    · exact Nat.succ_le_succ hrest
    · exact Nat.le_succ_of_le hrest

namespace Machine

/-! ## Separators -/

/-- Where the search goes on after a match. -/
def nextSearchStart (text : Text) (found : Span) (limit : Nat) : Machine (Option Nat) :=
  if found.isEmpty then
    match Text.charAt? text found.stop with
    | some c => do
      let next ← add found.stop c.utf8Size
      return if next ≤ limit then some next else none
    | none => pure none
  else pure (some found.stop)

/-- Where the next search starts can be counted. -/
theorem nextSearchStart_eq {text : Text} {found : Span} {limit : Nat}
    (htext : byteLength text ≤ maxCount) (hstop : isBoundary text found.stop) :
    nextSearchStart text found limit = pure (Pattern.nextSearchStart text found limit) := by
  unfold nextSearchStart Pattern.nextSearchStart
  split_ifs
  · obtain ⟨l, r, rfl, hl⟩ := Text.isBoundary_iff.mp hstop
    rw [← hl, Text.charAt?_append]
    cases r with
    | nil => rfl
    | cons c r =>
      rw [Text.byteLength_append, Text.byteLength_cons] at htext
      simp only [List.head?_cons, Option.map_some, Option.filter_some]
      rw [add_eq (by omega), pure_bind]
      simp
  · rfl

/-- Searches for a match where the last one has left off, and goes on behind it. -/
def searchNext (p : Pattern) (text : Text) :
    Option Nat × List Span → Machine (List Span ⊕ (Option Nat × List Span))
  | (none, spans) => pure (.inl spans)
  | (some offset, spans) =>
    match p.findFrom text offset with
    | none => pure (.inl spans)
    | some found => do
      let next ← nextSearchStart text found.span (byteLength text)
      return .inr (next, spans ++ [found.span])

/-- All matches that searches find, one after the other. -/
noncomputable def searchAll (p : Pattern) (text : Text) : Machine (List Span) :=
  loop (searchNext p text) (some 0, [])

/-- After a match behind the cut in front of `r` the next search starts behind at least one
character of `r`. -/
theorem exists_next_cut (p : Pattern) {text l r : Text} (htext : text = l ++ r)
    {found : Pattern.Match} (hfind : p.findFrom text (byteLength l) = some found) {next : Nat}
    (hnext : Pattern.nextSearchStart text found.span (byteLength text) = some next) :
    ∃ m r', r = m ++ r' ∧ 0 < m.length ∧ next = byteLength (l ++ m) := by
  have hspan := (Pattern.findFrom_within hfind).span
  obtain ⟨-, -, hboundary⟩ := Pattern.nextSearchStart_spec hspan.stop hspan.le_high hnext
  rw [Pattern.nextSearchStart_eq_filter hspan.le_high] at hnext
  obtain ⟨hafter, -⟩ := Option.filter_eq_some_iff.mp hnext
  have hlt := Matcher.lt_after hspan.low_le hspan.le hafter
  obtain ⟨l', r', htext', rfl⟩ := Text.isBoundary_iff.mp hboundary
  obtain ⟨m, rfl, rfl⟩ := Text.exists_middle (htext.symm.trans htext') (Nat.le_of_lt hlt)
  refine ⟨m, r', rfl, List.length_pos_iff.mpr ?_, rfl⟩
  rintro rfl
  rw [List.append_nil] at hlt
  exact Nat.lt_irrefl _ hlt

/-- From the cut in front of `r` there is at most one match more than `r` has characters. -/
theorem loop_searchNext (p : Pattern) {text l r : Text} {n : Nat} (htext : text = l ++ r)
    (hbytes : byteLength text ≤ maxCount) (hn : r.length < n) (spans : List Span) :
    loop (searchNext p text) (some (byteLength l), spans) =
      pure (spans ++ p.matchesFrom text n (some (byteLength l))) := by
  induction n generalizing l r spans with
  | zero => exact absurd hn (Nat.not_lt_zero _)
  | succ n ih =>
    rw [Pattern.matchesFrom]
    cases hfind : p.findFrom text (byteLength l) with
    | none =>
      rw [loop_of_inl (by rw [searchNext, hfind]), List.append_nil]
    | some found =>
      have hspan := (Pattern.findFrom_within hfind).span
      have hstep : searchNext p text (some (byteLength l), spans) =
          pure (.inr (Pattern.nextSearchStart text found.span (byteLength text),
            spans ++ [found.span])) := by
        rw [searchNext, hfind]
        simp only [nextSearchStart_eq hbytes hspan.stop, pure_bind]
      rw [loop_of_inr hstep]
      simp only
      cases hnext : Pattern.nextSearchStart text found.span (byteLength text) with
      | none =>
        rw [loop_of_inl rfl, Pattern.matchesFrom_none]
      | some next =>
        obtain ⟨m, r', rfl, hm, rfl⟩ := exists_next_cut p htext hfind hnext
        rw [List.length_append] at hn
        rw [ih (htext.trans (List.append_assoc _ _ _).symm) (by omega), List.append_assoc,
          List.singleton_append]

/-- The searches for all matches in a text come to an end. -/
theorem searchAll_eq (p : Pattern) {text : Text} (hbytes : byteLength text ≤ maxCount) :
    searchAll p text = pure (p.allMatches text) :=
  loop_searchNext p (l := []) rfl hbytes (Nat.lt_succ_self _) []

/-- The occurrences of a character in a text whose first byte has a certain offset. -/
def occurrences (c : Char) (offset : Nat) : Text → Machine (List Span)
  | [] => pure []
  | a :: rest => do
    let behind ← occurrences c (offset + a.utf8Size) rest
    if a = c then return ⟨offset, ← add offset c.utf8Size⟩ :: behind else return behind

/-- So can the places where a character occurs. -/
theorem occurrences_eq (c : Char) {offset : Nat} {text : Text}
    (h : offset + byteLength text ≤ maxCount) :
    occurrences c offset text = pure (Split.occurrences c offset text) := by
  induction text generalizing offset with
  | nil => rfl
  | cons a rest ih =>
    rw [Text.byteLength_cons] at h
    rw [occurrences, Split.occurrences, ih (by omega), pure_bind]
    split_ifs with ha
    · rw [← ha, add_eq (by omega), pure_bind]
    · rfl

/-! ## Pieces -/

/-- Whether the next piece is the last one that the limit allows. -/
def isLast (limit : SplitLimit) (pieces : List Span) : Machine Bool :=
  match limit with
  | .atMost n => do return decide (n ≤ (← add pieces.length 1))
  | .keepTrailing | .dropTrailing => pure false

/-- Cuts pieces in front of separators, the first of them at offset `index`. The answer is the
pieces, behind those that are given, and the offset where the last separator stops. -/
def cutPieces (limit : SplitLimit) (pieces : List Span) (index : Nat) :
    List Span → Machine (List Span × Nat)
  | [] => pure (pieces, index)
  | found :: rest => do
    if found = ⟨0, 0⟩ then cutPieces limit pieces index rest
    else if ← isLast limit pieces then return (pieces, index)
    else cutPieces limit (pieces ++ [⟨index, found.start⟩]) found.stop rest

/-- The separators that are used when some pieces have been cut. -/
def allowed (limit : SplitLimit) (cut : Nat) (separators : List Span) : List Span :=
  let separators := separators.filter (· ≠ ⟨0, 0⟩)
  match limit with
  | .atMost n => separators.take (n - 1 - cut)
  | .keepTrailing | .dropTrailing => separators

/-- Before any piece has been cut these are the separators that a split uses. -/
theorem allowed_zero (limit : SplitLimit) (separators : List Span) :
    allowed limit 0 separators = Split.used limit separators := by
  cases limit <;> rfl

/-- Unless the next piece is the last one, a separator is used, and others behind it. -/
theorem isLast_eq (limit : SplitLimit) {pieces : List Span} (h : pieces.length + 1 ≤ maxCount)
    {found : Span} (hfound : found ≠ ⟨0, 0⟩) (rest : List Span) :
    (isLast limit pieces = pure true ∧ allowed limit pieces.length (found :: rest) = []) ∨
      isLast limit pieces = pure false ∧ allowed limit pieces.length (found :: rest) =
        found :: allowed limit (pieces.length + 1) rest := by
  have hfilter : (found :: rest).filter (· ≠ ⟨0, 0⟩) = found :: rest.filter (· ≠ ⟨0, 0⟩) :=
    List.filter_cons_of_pos (decide_eq_true hfound)
  cases limit with
  | keepTrailing => exact .inr ⟨rfl, hfilter⟩
  | dropTrailing => exact .inr ⟨rfl, hfilter⟩
  | atMost n =>
    simp only [isLast, allowed, hfilter]
    rw [add_eq h, pure_bind]
    by_cases hn : n ≤ pieces.length + 1
    · rw [decide_eq_true hn, show n - 1 - pieces.length = 0 by omega, List.take_zero]
      exact .inl ⟨rfl, rfl⟩
    · have hcount : n - 1 - pieces.length = n - 1 - (pieces.length + 1) + 1 := by omega
      rw [decide_eq_false hn, hcount, List.take_succ_cons]
      exact .inr ⟨rfl, rfl⟩

/-- The pieces that are cut are those in front of the separators that are used. What is behind the
last of these is the piece that remains. -/
theorem cutPieces_eq {limit : SplitLimit} {pieces separators : List Span} {index : Nat}
    (h : pieces.length + separators.length ≤ maxCount) :
    ∃ cut last, cutPieces limit pieces index separators = pure (pieces ++ cut, last) ∧
      ∀ stop, Split.between index stop (allowed limit pieces.length separators) =
        cut ++ [⟨last, stop⟩] := by
  induction separators generalizing pieces index with
  | nil =>
    refine ⟨[], index, by rw [cutPieces, List.append_nil], fun stop => ?_⟩
    cases limit <;> simp [allowed, Split.between]
  | cons found rest ih =>
    rw [List.length_cons] at h
    rw [cutPieces]
    split_ifs with hstart
    · -- An empty separator at the very start is left out.
      have hallowed : allowed limit pieces.length (found :: rest) =
          allowed limit pieces.length rest := by
        simp only [allowed, hstart, ne_eq, decide_not, List.filter_cons, decide_true,
          Bool.not_true, Bool.false_eq_true, if_false]
      rw [hallowed]
      exact ih (by omega)
    · have hroom : pieces.length + 1 ≤ maxCount := by omega
      rcases isLast_eq limit hroom hstart rest with ⟨hlast, hallowed⟩ | ⟨hlast, hallowed⟩
      · rw [hlast, hallowed, pure_bind, if_pos rfl]
        exact ⟨[], index, by rw [List.append_nil], fun _ => rfl⟩
      · obtain ⟨cut, last, hcut, hbetween⟩ := @ih (pieces ++ [⟨index, found.start⟩]) found.stop
          (by rw [List.length_append, List.length_singleton]; omega)
        rw [List.length_append, List.length_singleton] at hbetween
        rw [hlast, hallowed, pure_bind, if_neg (by decide), hcut]
        refine ⟨⟨index, found.start⟩ :: cut, last, by rw [List.append_assoc]; rfl, fun stop => ?_⟩
        rw [Split.between, hbetween]
        rfl

/-- The segments of spans in order, each found by walking on from the one before. -/
def locate (s : Segment) : Locator → List Span → Machine (List Segment)
  | _, [] => pure []
  | t, p :: rest => do
    let t ← t.advanceTo p.start
    let first ← deriveAt s p.start p.stop t.position
    return first :: (← locate s t rest)

/-- The pieces are placed by the walk, unless the machine cannot count to where one of them
starts. -/
theorem locate_comesTo {s : Segment} (hs : s.InMemory) {l r : Text} (htext : s.text = l ++ r)
    {spans : List Span} (h : Span.InOrder s.text (byteLength l) spans) :
    (locate s (.past s.start l r) spans).ComesTo
      (s.CharsCounted ∧ ∀ p ∈ spans, (s.walkTo p.start).Counted)
      (Split.locate s (.past s.start l r) spans) := by
  induction spans generalizing l r with
  | nil => exact .pure _
  | cons p rest ih =>
    -- The walk goes on over `m`, from the last cut to the start of the piece `x`.
    obtain ⟨m, x, r', rfl, rfl, hrest⟩ := h.exists_cut htext
    have hwalk : s.text = (l ++ m) ++ (x ++ r') := by rw [htext, List.append_assoc]
    have hcut : s.text = l ++ m ++ x ++ r' := hwalk.trans (List.append_assoc _ _ _).symm
    have hreached := Segment.walkTo_eq hwalk
    have hbytes := hs.byteLength_le
    rw [hwalk] at hbytes
    have hmove := Locator.advanceTo_past_comesTo (p := s.start) hbytes
    have hpiece := deriveAt_comesTo hs hcut (s.start.advance (l ++ m) (x ++ r').head?)
    have hbehind := ih hwalk hrest
    rw [locate, Split.locate, Tracker.advanceTo_past]
    simp only [Locator.past, Tracker.past, List.forall_mem_cons] at hmove hbehind ⊢
    refine (hmove.mono fun hcounted => ?_).bind ((hpiece.mono fun hcounted => ?_).bind
      ((hbehind.mono fun hcounted => ⟨hcounted.1, hcounted.2.2⟩).bind (.pure _)))
    · have hthere := hcounted.2.1
      rw [hreached] at hthere
      exact ⟨.inr hthere.line, hthere.col⟩
    · by_cases hne : x ++ r' = []
      · obtain ⟨rfl, -⟩ := List.append_eq_nil_iff.mp hne
        rw [← hreached]
        exact .nil hcounted.2.1.col
      · have hchars := hcounted.1
        unfold Segment.CharsCounted at hchars
        rw [hcut] at hchars
        exact hchars.advance hne

/-- At the first piece that starts on a line that the machine cannot count to, it meets a number
that is no count. -/
theorem locate_meets {s : Segment} (hs : s.InMemory) {l r : Text} (htext : s.text = l ++ r)
    {spans : List Span} (h : Span.InOrder s.text (byteLength l) spans)
    (hfrom : (s.start.advance l r.head?).line ≤ maxCount)
    (huncounted : ∃ p ∈ spans, maxCount < (s.walkTo p.start).line) :
    (locate s (.past s.start l r) spans).Meets .count := by
  induction spans generalizing l r with
  | nil => simp at huncounted
  | cons p rest ih =>
    obtain ⟨m, x, r', rfl, rfl, hrest⟩ := h.exists_cut htext
    have hwalk : s.text = (l ++ m) ++ (x ++ r') := by rw [htext, List.append_assoc]
    have hcut : s.text = l ++ m ++ x ++ r' := hwalk.trans (List.append_assoc _ _ _).symm
    have hbytes := hs.byteLength_le
    rw [hwalk] at hbytes
    rw [locate]
    rcases Nat.lt_or_ge maxCount (s.start.advance (l ++ m) (x ++ r').head?).line with hline | hline
    · exact (Locator.advanceTo_past_meets_line hbytes hfrom hline).bind
    · -- It is a later one, unless the walk or the piece itself meets such a number.
      have hlater : ∃ q ∈ rest, maxCount < (s.walkTo q.start).line := by
        rw [List.exists_mem_cons_iff] at huncounted
        refine huncounted.resolve_left ?_
        rw [Segment.walkTo_eq hwalk]
        exact Nat.not_lt.mpr hline
      rcases (Locator.advanceTo_past_comesTo (p := s.start) hbytes).either with hmove | hmeets
      · have hpiece := deriveAt_comesTo hs hcut (s.start.advance (l ++ m) (x ++ r').head?)
        rw [hmove, pure_bind]
        rcases hpiece.either with hpiece | hmeets
        · simp only [Locator.past, hpiece, pure_bind]
          exact (ih hwalk hrest hline hlater).bind
        · exact hmeets.bind
      · exact hmeets.bind

/-! ## Splits -/

/-- Splits around separators, which are given in order. -/
def splitAround (s : Segment) (separators : List Span) (limit : SplitLimit) :
    Machine (List Segment) := do
  let text ← text s
  let (pieces, index) ← cutPieces limit [] 0 separators
  if pieces.isEmpty then return [s]
  else
    let pieces := pieces ++ [⟨index, byteLength text⟩]
    let pieces := if limit = .dropTrailing then Split.dropTrailingEmpty pieces else pieces
    locate s (.start text s.start) pieces

/-- Splits around the matches of a pattern. -/
noncomputable def split (s : Segment) (p : Pattern) (limit : SplitLimit) :
    Machine (List Segment) := do
  splitAround s (← searchAll p (← text s)) limit

/-- Splits around the matches of a pattern given as a text. -/
noncomputable def splitText (s : Segment) (separator : Text) (limit : SplitLimit) :
    Machine (Except Pattern.SyntaxError (List Segment)) := do
  match Split.literal? separator with
  | some c => return .ok (← splitAround s (← occurrences c 0 (← text s)) limit)
  | none =>
    match Pattern.compile {} separator with
    | .ok p => return .ok (← split s p limit)
    | .error e => return .error e

/-- The lines, without the breaks between them. -/
def lines (s : Segment) : Machine (List Segment) := do
  splitAround s (← breaks 0 (utf8 (← text s))) .keepTrailing

variable {s t : Segment}

/-- What is not used is not cut around, so the pieces are those of the separators that are used. -/
theorem splitAround_run (hs : s.InMemory) {separators : List Span} (limit : SplitLimit)
    (hlength : separators.length ≤ maxCount) :
    splitAround s separators limit =
      if Split.used limit separators = [] then pure [s]
      else locate s (.past s.start [] s.text)
        (Split.pieces (byteLength s.text) limit (Split.used limit separators)) := by
  have hroom : ([] : List Span).length + separators.length ≤ maxCount := by simpa using hlength
  obtain ⟨cut, last, hcut, hbetween⟩ := @cutPieces_eq limit [] separators 0 hroom
  rw [List.length_nil, allowed_zero] at hbetween
  have hlengths := congrArg List.length (hbetween (byteLength s.text))
  rw [Split.length_between, List.length_append, List.length_singleton] at hlengths
  unfold splitAround
  rw [text_eq hs, pure_bind, hcut, pure_bind, List.nil_append]
  simp only
  by_cases hused : Split.used limit separators = []
  · -- The whole text is the only piece, so none has been cut.
    rw [hused, List.length_nil] at hlengths
    have hnil : cut = [] := List.eq_nil_of_length_eq_zero (by omega)
    rw [hnil, if_pos hused]
    rfl
  · have hne : cut.isEmpty = false := by
      rw [List.isEmpty_eq_false_iff, ← List.length_pos_iff]
      have hpos := List.length_pos_iff.mpr hused
      omega
    have hsame : (if limit = .dropTrailing then
        Split.dropTrailingEmpty (cut ++ [⟨last, byteLength s.text⟩])
        else cut ++ [⟨last, byteLength s.text⟩]) =
          Split.pieces (byteLength s.text) limit (Split.used limit separators) := by
      unfold Split.pieces
      simp only [hbetween]
      cases limit <;> rfl
    rw [hne, if_neg Bool.false_ne_true, hsame, if_neg hused]
    rfl

/-- A split comes to its pieces if the machine can count to where each of them starts. -/
theorem splitAround_comesTo (hs : s.InMemory) {separators : List Span} (limit : SplitLimit)
    (hsep : Span.InOrder s.text 0 separators) (hlength : separators.length ≤ maxCount) :
    (splitAround s separators limit).ComesTo
      (s.CharsCounted ∧ ∀ t ∈ s.splitAround separators limit, t.start.Counted)
      (s.splitAround separators limit) := by
  have hpieces := Split.pieces_inOrder limit (hsep.sublist (Split.used_sublist limit separators))
  rw [splitAround_run hs limit hlength]
  split_ifs with hused
  · rw [Segment.splitAround_eq_self hused]
    exact .pure _
  · have hlocate := locate_comesTo hs (List.nil_append s.text).symm hpieces
    have hmodel := Split.locate_eq_map hpieces
    rw [Tracker.start_eq_past] at hmodel
    rw [Segment.splitAround_eq_map hs.placed hsep hused]
    rw [hmodel] at hlocate
    exact hlocate.mono fun h => ⟨h.1, fun p hp => h.2 _ (List.mem_map_of_mem hp)⟩

/-- If one starts on a line that the machine cannot count to, a split meets a number that is no
count. -/
theorem splitAround_meets (hs : s.InMemory) {separators : List Span} (limit : SplitLimit)
    (hsep : Span.InOrder s.text 0 separators) (hlength : separators.length ≤ maxCount)
    (hstart : s.start.line ≤ maxCount) (ht : t ∈ s.splitAround separators limit)
    (huncounted : maxCount < t.start.line) : (splitAround s separators limit).Meets .count := by
  have hpieces := Split.pieces_inOrder limit (hsep.sublist (Split.used_sublist limit separators))
  rw [splitAround_run hs limit hlength]
  split_ifs with hused
  · rw [Segment.splitAround_eq_self hused] at ht
    exact absurd huncounted (List.mem_singleton.mp ht ▸ Nat.not_lt.mpr hstart)
  · rw [Segment.splitAround_eq_map hs.placed hsep hused] at ht
    obtain ⟨p, hp, rfl⟩ := List.mem_map.mp ht
    exact @locate_meets s hs [] s.text rfl _ hpieces hstart ⟨p, hp, huncounted⟩

/-- There are fewer separators than the machine can count. -/
theorem length_allMatches_le (hs : s.InMemory) (p : Pattern) :
    (p.allMatches s.text).length ≤ maxCount := by
  have hbytes := hs.byteLength_le
  have hcount := maxCount_eq
  have hchars := Text.length_le_byteLength s.text
  have hlength := p.length_matchesFrom_le s.text (s.text.length + 1) (some 0)
  exact Nat.le_trans hlength (by omega)

/-- The matches of a pattern are found, and then the segment is split around them. -/
theorem split_run (hs : s.InMemory) (p : Pattern) (limit : SplitLimit) :
    split s p limit = splitAround s (p.allMatches s.text) limit := by
  have hbytes := hs.byteLength_le
  have hcount := maxCount_eq
  rw [split, text_eq hs, pure_bind, searchAll_eq p (by omega), pure_bind]

/-- A split around them comes to its pieces if the machine can count to where each starts. -/
theorem split_comesTo (hs : s.InMemory) (p : Pattern) (limit : SplitLimit) :
    (split s p limit).ComesTo (s.CharsCounted ∧ ∀ t ∈ s.split p limit, t.start.Counted)
      (s.split p limit) := by
  rw [split_run hs]
  exact splitAround_comesTo hs limit (p.allMatches_inOrder s.text) (length_allMatches_le hs p)

/-- If one of them starts on a line that it cannot count to, it meets a number that is no count. -/
theorem split_meets (hs : s.InMemory) (p : Pattern) (limit : SplitLimit)
    (hstart : s.start.line ≤ maxCount) (ht : t ∈ s.split p limit)
    (huncounted : maxCount < t.start.line) : (split s p limit).Meets .count := by
  rw [split_run hs]
  exact splitAround_meets hs limit (p.allMatches_inOrder s.text) (length_allMatches_le hs p) hstart
    ht huncounted

/-- A separator that is given as a text is refused, or its occurrences are found and the segment is
split around them. -/
theorem splitText_run (hs : s.InMemory) (separator : Text) (limit : SplitLimit) :
    (∃ e, splitText s separator limit = pure (.error e) ∧
      s.splitText separator limit = .error e) ∨
    ∃ separators, Span.InOrder s.text 0 separators ∧ separators.length ≤ maxCount ∧
      splitText s separator limit = Except.ok <$> splitAround s separators limit ∧
      s.splitText separator limit = .ok (s.splitAround separators limit) := by
  unfold splitText Segment.splitText
  cases Split.literal? separator with
  | some c =>
    have hbytes := hs.byteLength_le
    have hcount := maxCount_eq
    have hchars := Text.length_le_byteLength s.text
    have hlength := Split.length_occurrences_le c 0 s.text
    have horder : Span.InOrder s.text 0 (Split.occurrences c 0 s.text) :=
      Split.occurrences_inOrder c [] s.text
    refine .inr ⟨_, horder, by omega, ?_, rfl⟩
    simp only [text_eq hs, pure_bind]
    rw [occurrences_eq c (by omega), pure_bind, bind_pure_comp]
  | none =>
    cases Pattern.compile {} separator with
    | error e => exact .inl ⟨e, rfl, rfl⟩
    | ok p =>
      refine .inr ⟨_, p.allMatches_inOrder s.text, length_allMatches_le hs p, ?_, rfl⟩
      simp only [split_run hs, bind_pure_comp]

/-- A split around them comes to its pieces if the machine can count to where each starts. -/
theorem splitText_comesTo (hs : s.InMemory) (separator : Text) (limit : SplitLimit) :
    (splitText s separator limit).ComesTo
      (s.CharsCounted ∧ ∀ pieces, s.splitText separator limit = .ok pieces →
        ∀ t ∈ pieces, t.start.Counted) (s.splitText separator limit) := by
  rcases splitText_run hs separator limit with
    ⟨e, hrun, hanswer⟩ | ⟨separators, horder, hlength, hrun, hanswer⟩
  · rw [hrun, hanswer]
    exact .pure _
  · rw [hrun, hanswer, ← bind_pure_comp]
    exact ((splitAround_comesTo hs limit horder hlength).mono
      fun h => ⟨h.1, h.2 _ rfl⟩).bind (.pure _)

/-- If one of them starts on a line that it cannot count to, it meets a number that is no count. -/
theorem splitText_meets (hs : s.InMemory) (separator : Text) (limit : SplitLimit)
    (hstart : s.start.line ≤ maxCount) {pieces : List Segment}
    (hpieces : s.splitText separator limit = .ok pieces) (ht : t ∈ pieces)
    (huncounted : maxCount < t.start.line) : (splitText s separator limit).Meets .count := by
  rcases splitText_run hs separator limit with
    ⟨e, -, hanswer⟩ | ⟨separators, horder, hlength, hrun, hanswer⟩
  · cases hanswer.symm.trans hpieces
  · obtain rfl := Except.ok.inj (hanswer.symm.trans hpieces)
    rw [hrun, ← bind_pure_comp]
    exact (splitAround_meets hs limit horder hlength hstart ht huncounted).bind

/-- The line breaks are found, and then the segment is split around them. -/
theorem lines_run (hs : s.InMemory) :
    lines s = splitAround s (LineBreak.spans s.text) .keepTrailing := by
  have hbytes := hs.byteLength_le
  have hcount := maxCount_eq
  rw [lines, text_eq hs, pure_bind, breaks_utf8 (by omega), pure_bind]
  rfl

/-- There are fewer line breaks than the machine can count. -/
theorem length_spans_le (hs : s.InMemory) : (LineBreak.spans s.text).length ≤ maxCount := by
  have hbytes := hs.byteLength_le
  have hcount := maxCount_eq
  have hchars := Text.length_le_byteLength s.text
  have hlength := LineBreak.length_scan_le 0 s.text
  exact Nat.le_trans hlength (by omega)

/-- The lines are found if the machine can count to each of them. -/
theorem lines_comesTo (hs : s.InMemory) :
    (lines s).ComesTo (s.CharsCounted ∧ ∀ t ∈ s.lines, t.start.Counted) s.lines := by
  rw [lines_run hs]
  exact splitAround_comesTo hs _ (LineBreak.spans_inOrder s.text) (length_spans_le hs)

/-- If there is one that it cannot count to, it meets a number that is no count. -/
theorem lines_meets (hs : s.InMemory) (hstart : s.start.line ≤ maxCount) (ht : t ∈ s.lines)
    (huncounted : maxCount < t.start.line) : (lines s).Meets .count := by
  rw [lines_run hs]
  exact splitAround_meets hs _ (LineBreak.spans_inOrder s.text) (length_spans_le hs) hstart ht
    huncounted

end Machine

end SourceText
