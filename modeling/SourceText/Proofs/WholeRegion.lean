import SourceText.Proofs.CurrentMatch
import SourceText.Proofs.Enumeration

/-!
# What matches a whole region

A search gives the match that the pattern prefers, and another may be the one that covers the whole
region. So `matchesRegion` has two ways to decide. If the preferred match stops short
(`Matcher.StopsShort`), the pattern for whole texts decides. It is the pattern between the start and
the end of the text, and a sequence takes what its nodes take one after the other
(`Node.takes_sequence`), so it matches exactly where the pattern covers all (`whole_matches_iff`).
In any other case the preferred match decides: it covers the region, or, being the leftmost, it
shows that no match starts with the region.
-/

namespace SourceText

open Text (byteLength)

namespace Pattern

/-! ## Sequences -/

/-- What nodes take one after the other. -/
def Node.takesInTurn (nodes : List Node) : Language :=
  nodes.foldr (fun n R => n.takes.andThen R) .nothing

namespace Node

/-- No nodes take nothing. -/
@[simp] theorem takesInTurn_nil : takesInTurn [] = .nothing := rfl

/-- The first takes the beginning of the text, and the others the rest. -/
@[simp] theorem takesInTurn_cons (n : Node) (nodes : List Node) :
    takesInTurn (n :: nodes) = n.takes.andThen (takesInTurn nodes) := rfl

/-- Nodes in two lots take a text in two parts. -/
theorem takesInTurn_append (a b : List Node) :
    takesInTurn (a ++ b) = (takesInTurn a).andThen (takesInTurn b) := by
  induction a with
  | nil => simp
  | cons n a ih => simp [ih, Language.andThen_assoc]

/-- The parts of a node take what the node takes. -/
theorem takesInTurn_parts (n : Node) : takesInTurn n.parts = n.takes := by
  induction n with
  | empty => rfl
  | seq a b _ ihb => rw [parts, takesInTurn_cons, ihb, takes]
  | literal | set | assertion | group | alt | rep =>
    rw [parts, takesInTurn_cons, takesInTurn_nil, Language.andThen_nothing]
    all_goals simp

/-- Taking nodes apart into their parts makes no difference. -/
theorem takesInTurn_flatMap_parts (nodes : List Node) :
    takesInTurn (nodes.flatMap parts) = takesInTurn nodes := by
  induction nodes with
  | nil => rfl
  | cons n nodes ih =>
    rw [List.flatMap_cons, takesInTurn_append, takesInTurn_parts, ih, takesInTurn_cons]

/-- Literals take the same text joined as one after the other. -/
theorem takesInTurn_joinLiterals (nodes : List Node) :
    takesInTurn (joinLiterals nodes) = takesInTurn nodes := by
  induction nodes with
  | nil => rfl
  | cons n nodes ih =>
    unfold joinLiterals
    split
    · -- A literal in front of another is joined to it.
      rename_i s t rest hjoin
      rw [takesInTurn_cons, takesInTurn_cons, ← ih, hjoin, takesInTurn_cons,
        ← Language.andThen_assoc]
      simp only [takes, Language.exactly_andThen_exactly]
    · rw [takesInTurn_cons, takesInTurn_cons, ih]

/-- Nodes that are chained take their texts in turn. -/
theorem takes_chain (nodes : List Node) : (chain nodes).takes = takesInTurn nodes := by
  induction nodes with
  | nil => rfl
  | cons n nodes ih =>
    cases nodes with
    | nil => exact (Language.andThen_nothing _).symm
    | cons n' nodes => rw [chain, takes, ih, takesInTurn_cons n]

/-- A sequence takes what its nodes take one after the other. -/
theorem takes_sequence (nodes : List Node) : (sequence nodes).takes = takesInTurn nodes := by
  rw [sequence, takes_chain, takesInTurn_joinLiterals, takesInTurn_flatMap_parts]

/-- Between the start and the end of the text a node takes the whole of it or nothing. -/
theorem takes_between_edges {n : Node} {l m r : Text} :
    (sequence [assertion .textStart, n, assertion .textEnd]).takes l m r ↔
      l = [] ∧ r = [] ∧ n.takes [] m [] := by
  rw [takes_sequence]
  constructor
  · rintro ⟨m₁, _, rfl, ⟨rfl, hl⟩, m₂, _, rfl, hn, _, m₃, rfl, ⟨rfl, hr⟩, rfl⟩
    obtain rfl : l = [] := by simpa [Assertion.holds] using hl
    obtain rfl : r = [] := by simpa [Assertion.holds] using hr
    exact ⟨rfl, rfl, by simpa using hn⟩
  · rintro ⟨rfl, rfl, hn⟩
    refine ⟨[], m, rfl, ⟨rfl, rfl⟩, m, [], by simp, by simpa using hn, [], [], rfl, ⟨rfl, rfl⟩, rfl⟩

end Node

/-! ## The pattern for whole texts -/

/-- The whole of a text. -/
def wholeSpan (text : Text) : Span := ⟨0, byteLength text⟩

/-- A pattern matches all of a text if its tree takes it, with nothing on either side. -/
theorem matches_wholeSpan_iff {p : Pattern} {text : Text} :
    p.Matches text (wholeSpan text) ↔ p.node.takes [] text [] := by
  constructor
  · rintro ⟨l, m, r, rfl, hl, hm, htakes⟩
    obtain rfl : l = [] := Text.byteLength_eq_zero.mp hl
    obtain rfl : r = [] := by
      simp only [wholeSpan, Text.byteLength_append] at hm
      exact Text.byteLength_eq_zero.mp (by omega)
    simpa using htakes
  · intro htakes
    exact ⟨[], text, [], by simp, rfl, by simp [wholeSpan], htakes⟩

/-- Without flags, the pattern for whole texts is the pattern between the edges of the text. -/
theorem node_whole {p q : Pattern} (hp : p.ReadWith {})
    (hq : compile {} p.wholeSource = .ok q) :
    q.node = .sequence [.assertion .textStart, p.node, .assertion .textEnd] := by
  obtain ⟨source, hp⟩ := hp
  unfold compile at hp hq
  obtain ⟨n, hn, rfl⟩ := map_eq_ok.mp hp
  obtain ⟨n', hn', rfl⟩ := map_eq_ok.mp hq
  obtain ⟨-, -, hnode⟩ := Reader.read_whole rfl hn hn'
  exact hnode rfl

/-- It matches nothing but whole texts, and these where the pattern does. -/
theorem whole_matches_iff {p q : Pattern} (hp : p.ReadWith {})
    (hq : compile {} p.wholeSource = .ok q) {text : Text} {s : Span} :
    q.Matches text s ↔ s = wholeSpan text ∧ p.Matches text (wholeSpan text) := by
  rw [matches_wholeSpan_iff]
  unfold Matches
  simp only [node_whole hp hq, Node.takes_between_edges]
  constructor
  · rintro ⟨l, m, r, rfl, hl, hm, rfl, rfl, htakes⟩
    refine ⟨?_, by simpa using htakes⟩
    obtain ⟨start, stop⟩ := s
    simp only [wholeSpan, List.nil_append, List.append_nil, Text.byteLength_nil] at hl hm ⊢
    rw [hl, hm]
  · rintro ⟨rfl, htakes⟩
    exact ⟨[], text, [], by simp, rfl, by simp [wholeSpan], rfl, rfl, htakes⟩

/-- So a search with it finds whether the pattern covers the text, and then that is its match. -/
theorem findFrom_whole {p q : Pattern} (hp : p.ReadWith {})
    (hq : compile {} p.wholeSource = .ok q) (text : Text) :
    ((q.findFrom text 0).isSome = true ↔ p.Matches text (wholeSpan text)) ∧
      ∀ f, q.findFrom text 0 = some f → f.span = wholeSpan text := by
  constructor
  · constructor
    · intro hsome
      obtain ⟨f, hf⟩ := Option.isSome_iff_exists.mp hsome
      exact ((whole_matches_iff hp hq).mp (findFrom_matches hf)).2
    · intro hmatch
      obtain ⟨f, hf, -⟩ := exists_findFrom (Text.isBoundary_zero text)
        ((whole_matches_iff hp hq).mpr ⟨rfl, hmatch⟩) (Nat.zero_le _)
      rw [hf]
      rfl
  · intro f hf
    exact ((whole_matches_iff hp hq).mp (findFrom_matches hf)).1

end Pattern

namespace Matcher

open Pattern (wholeSpan)

variable {m : Matcher}

/-! ## Matchers -/

/-- The preferred match in the text of the region starts with the region and ends before it does. -/
def StopsShort (m : Matcher) : Prop :=
  ∃ f, m.pattern.findFrom m.regionText 0 = some f ∧ f.span.start = 0 ∧
    f.span.stop < byteLength m.regionText

/-- What is found is the match of the whole region, or nothing is found and there is none. -/
def Covers (m : Matcher) (found : Option Pattern.Match) : Prop :=
  (found.isSome = true ↔ m.pattern.Matches m.regionText (wholeSpan m.regionText)) ∧
    ∀ f, found = some f → f.span = wholeSpan m.regionText

/-- The pattern that matches whole texts only is that of the pattern's text, kept or not. -/
theorem wholePattern_of_ok (hm : m.Coherent) {q : Pattern}
    (hq : Pattern.compile {} m.pattern.wholeSource = .ok q) :
    m.wholePattern = .ok (q, { m with whole := some q }) := by
  rw [hm.wholePattern_eq, hq]
  rfl

/-- A pattern is refused for whole texts if the copy with anchors is. -/
theorem wholePattern_of_error (hm : m.Coherent) {e : Pattern.SyntaxError}
    (he : Pattern.compile {} m.pattern.wholeSource = .error e) : m.wholePattern = .error e := by
  rw [hm.wholePattern_eq, he]
  rfl

/-- If the preferred match stops short, the pattern for whole texts is asked. -/
theorem StopsShort.matchesRegion_eq (h : m.StopsShort) :
    m.matchesRegion =
      m.wholePattern.map fun (q, m') => m'.settle (q.findFrom m.regionText 0) := by
  obtain ⟨f, hf, hstart, hstop⟩ := h
  have hne : f.span ≠ ⟨0, byteLength m.regionText⟩ := by
    intro hspan
    rw [hspan] at hstop
    exact Nat.lt_irrefl _ hstop
  unfold regionText at hf hne
  simp only [matchesRegion, hf, if_neg hne, if_pos hstart]
  rfl

/-- If it does not, and starts with the region, it is the whole of it. -/
theorem span_eq_of_not_stopsShort (h : ¬ m.StopsShort) {f : Pattern.Match}
    (hf : m.pattern.findFrom m.regionText 0 = some f) (hstart : f.span.start = 0) :
    f.span = wholeSpan m.regionText := by
  have hhigh := (Pattern.findFrom_within hf).span.le_high
  have hshort : ¬ f.span.stop < byteLength m.regionText := fun hlt => h ⟨f, hf, hstart, hlt⟩
  have hstop : f.span.stop = byteLength m.regionText := by omega
  rw [wholeSpan, ← hstart, ← hstop]

/-- So it decides on its own. -/
theorem exists_settle_of_not_stopsShort (h : ¬ m.StopsShort) :
    ∃ found, m.matchesRegion = .ok (m.settle found) ∧ m.Covers found := by
  rcases m.matchesRegion_cases with ⟨found, hfound, heq⟩ | ⟨f, hf, hstart, heq⟩
  · refine ⟨found, heq, ⟨?_, ?_⟩, fun f hf => (hfound f hf).2⟩
    · intro hsome
      obtain ⟨f, hf⟩ := Option.isSome_iff_exists.mp hsome
      obtain ⟨hfind, hspan⟩ := hfound f hf
      have hmatch := Pattern.findFrom_matches hfind
      rwa [hspan] at hmatch
    · -- A match of the whole would be the leftmost, so the preferred match starts with it.
      intro hmatch
      obtain ⟨f, hf, hle⟩ :=
        Pattern.exists_findFrom (Text.isBoundary_zero m.regionText) hmatch (Nat.zero_le _)
      have hspan := span_eq_of_not_stopsShort h hf (Nat.le_zero.mp hle)
      have hsettle := Except.ok.inj (heq.symm.trans (matchesRegion_eq_ok hf hspan))
      exact congrArg Prod.fst hsettle
  · have hspan := span_eq_of_not_stopsShort h hf hstart
    refine ⟨some f, matchesRegion_eq_ok hf hspan, iff_of_true rfl ?_, ?_⟩
    · have hmatch := Pattern.findFrom_matches hf
      rwa [hspan] at hmatch
    · rintro g ⟨⟩
      exact hspan

/-- What the matcher is like once it has been settled whether the whole region matches. -/
structure Settled (m : Matcher) (isFound : Bool) (m' : Matcher) : Prop where
  /-- It does where the pattern has a match that covers the text of the region. -/
  iff : isFound = true ↔ m.pattern.Matches m.regionText (wholeSpan m.regionText)
  /-- The region is the same. -/
  region : m'.region = m.region
  /-- If it does, the current match is the region. -/
  found : isFound = true → m'.groupSpan? 0 = some m.region
  /-- The next search is from the end of the region. -/
  next : isFound = true → m'.find = m'.search m.region.stop
  /-- If it does not, there is no current match. -/
  none : isFound = false → m'.found = .none

/-- The matcher settles on a match that covers the region, and on nothing if there is none. -/
theorem settled_settle (hm : m.Coherent) {found : Option Pattern.Match} (hf : m.Covers found)
    (whole : Option Pattern) :
    m.Settled (settle { m with whole := whole } found).1 (settle { m with whole := whole } found).2
    where
  iff := hf.1
  region := rfl
  found := by
    intro hsome
    obtain ⟨f, rfl⟩ := Option.isSome_iff_exists.mp hsome
    have hspan := hf.2 f rfl
    change some (f.span.shift m.region.start) = some m.region
    rw [hspan, Span.shift, wholeSpan, byteLength_regionText hm]
    rfl
  next := by
    intro hsome
    obtain ⟨f, rfl⟩ := Option.isSome_iff_exists.mp hsome
    exact find_of_nextStart_eq_some rfl
  none := by
    intro hnone
    obtain rfl : found = Option.none :=
      Option.isNone_iff_eq_none.mp (Option.isSome_eq_false_iff.mp hnone)
    rfl

/-- For a pattern that is read without flags, and after any calls, `matchesRegion` decides whether
the pattern covers the region. If the preferred match stops short and the pattern for whole texts
cannot be read, the error is that of reading it. In all other cases there is an answer, which is
yes exactly if some match, the preferred one or not, is all of the region's text. -/
theorem matchesRegion_decides {d : Document} {s : Segment} (hs : Segment.Reachable d s)
    (hm : Reachable (fun _ => True) s m) (hp : m.pattern.ReadWith {}) :
    (∀ e, m.StopsShort → Pattern.compile {} m.pattern.wholeSource = .error e →
        m.matchesRegion = .error e) ∧
      ((∀ e, m.StopsShort → Pattern.compile {} m.pattern.wholeSource ≠ .error e) →
        ∃ isFound m', m.matchesRegion = .ok (isFound, m') ∧ m.Settled isFound m') := by
  obtain ⟨hplaced, -⟩ := hs.wellPlaced
  obtain ⟨hcoherent, -⟩ := hm.coherent hplaced
  refine ⟨fun e hshort he => ?_, fun hread => ?_⟩
  · rw [hshort.matchesRegion_eq, wholePattern_of_error hcoherent he]
    rfl
  · by_cases hshort : m.StopsShort
    · cases hq : Pattern.compile {} m.pattern.wholeSource with
      | error e => exact absurd hq (hread e hshort)
      | ok q =>
        have hcovers : m.Covers (q.findFrom m.regionText 0) :=
          Pattern.findFrom_whole hp hq m.regionText
        refine ⟨_, _, ?_, settled_settle hcoherent hcovers (some q)⟩
        rw [hshort.matchesRegion_eq, wholePattern_of_ok hcoherent hq]
        rfl
    · obtain ⟨found, hfound, hcovers⟩ := exists_settle_of_not_stopsShort hshort
      exact ⟨_, _, hfound, settled_settle hcoherent hcovers m.whole⟩

/-- The pattern `a|ab`, which prefers one letter to two. -/
def shortFirst : Pattern := ⟨"a|ab".toList, .alt (.literal ['a']) (.literal ['a', 'b'])⟩

/-- A new matcher for it over the text `ab`. -/
def overAb : Matcher := (Segment.ofText "ab".toList [] ⟨0, 0⟩).matcher shortFirst

/-- The preferred match is the first letter and stops short, but both letters are a match, and so
the whole region matches. -/
theorem matchesRegion_decides_second_choice :
    overAb.StopsShort ∧ shortFirst.Matches ['a', 'b'] ⟨0, 2⟩ ∧
      ∃ m', overAb.matchesRegion = .ok (true, m') ∧ overAb.Settled true m' := by
  have hread : overAb.pattern.ReadWith {} := ⟨"a|ab".toList, rfl⟩
  have hnew : Reachable (fun _ => True) (.ofText "ab".toList [] ⟨0, 0⟩) overAb := .new trivial
  obtain ⟨-, hanswer⟩ := matchesRegion_decides .root hnew hread
  have hshort : overAb.StopsShort := ⟨⟨⟨0, 1⟩, []⟩, by rfl, rfl, by decide⟩
  obtain ⟨isFound, m', hm', hsettled⟩ := hanswer fun e _ he => by cases he
  obtain rfl : isFound = true := by
    have hfst : overAb.matchesRegion.map Prod.fst = .ok true := by rfl
    rw [hm'] at hfst
    exact Except.ok.inj hfst
  exact ⟨hshort, hsettled.iff.mp rfl, m', hm', hsettled⟩

end Matcher

end SourceText
