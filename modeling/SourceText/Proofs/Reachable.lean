import SourceText.Proofs.Parser
import SourceText.Proofs.Split

/-!
# The segments of a document

`Derives s t` says that one operation on `s`, on a matcher over it or on a parser of it answers with
`t`, and `Reachable d s` that any number of them, one after the other, lead from the root of the
document `d` to `s`. However many operations there are, each makes nothing but `s` itself, the root,
or a part of one of the two (`Derives.eq_or_isPart`), so what parts keep is kept all the way
(`Reachable.preserves`).
-/

namespace SourceText.Segment

/-- One operation on `s` answers with `t`. -/
inductive Derives (s : Segment) : Segment → Prop where
  /-- The root of the document. -/
  | root : Derives s s.root
  /-- The part between two offsets. -/
  | substring {start stop : Nat} {t : Segment} (h : s.substring start stop = .ok t) : Derives s t
  /-- The part from an offset on. -/
  | substringFrom {start : Nat} {t : Segment} (h : s.substringFrom start = .ok t) : Derives s t
  /-- The character at an offset. -/
  | charSegmentAt {n : Nat} {t : Segment} (h : s.charSegmentAt n = .ok t) : Derives s t
  /-- The empty segment after the last character. -/
  | tail : Derives s s.tail
  /-- The document's character before the segment. -/
  | charBefore : Derives s s.charBefore
  /-- The document's character after the segment. -/
  | charAfter : Derives s s.charAfter
  /-- The segment without its blank edges. -/
  | trim : Derives s s.trim
  /-- A piece between the matches of a pattern. -/
  | split {p : Pattern} {limit : SplitLimit} {t : Segment} (h : t ∈ s.split p limit) : Derives s t
  /-- A piece between the matches of a pattern that is given as a text. -/
  | splitText {separator : Text} {limit : SplitLimit} {pieces : List Segment} {t : Segment}
      (h : s.splitText separator limit = .ok pieces) (ht : t ∈ pieces) : Derives s t
  /-- A line. -/
  | lines {t : Segment} (h : t ∈ s.lines) : Derives s t
  /-- A group of the current match of a matcher, after any calls on it. -/
  | group {p : Pattern} {ops : List Matcher.Op} {index : Nat} {t : Segment}
      (h : ((s.matcher p).run ops).groupAt? index = some t) : Derives s t
  /-- A token that a parser takes, what is left, or what an error is about, after any calls. -/
  | parsed {ops : List Parser.Op} {op : Parser.Op} {t : Segment}
      (h : (((Parser.ofSegment s).run ops).perform op).1.segment? = some t) : Derives s t

/-- The segment comes of any number of operations, the first of them on the root of `d`. -/
inductive Reachable (d : Document) : Segment → Prop where
  /-- The root. -/
  | root : Reachable d (ofDocument d)
  /-- One operation more. -/
  | step {s t : Segment} (hs : Reachable d s) (h : s.Derives t) : Reachable d t

/-- A group of a match is a part of the segment that is searched. -/
theorem isCut_groupAt? {m : Matcher} (hm : m.Coherent) {index : Nat} {t : Segment}
    (h : m.groupAt? index = some t) : m.segment.IsCut t := by
  obtain ⟨span, hspan, rfl⟩ := Option.map_eq_some_iff.mp h
  obtain ⟨f, hf, hgroup⟩ := Option.bind_eq_some_iff.mp hspan
  exact isCut_derive ((hm.found f hf).group hgroup)

variable {s t : Segment}

/-- An operation makes nothing but the segment, the root, or a part of one of the two. -/
theorem Derives.eq_or_isPart (hs : s.WellPlaced) (h : s.Derives t) :
    (t = s ∨ t = s.root) ∨ s.IsPart t ∨ s.root.IsPart t := by
  -- Most operations make the segment itself or a part of it.
  have hself : t = s ∨ s.IsPart t → (t = s ∨ t = s.root) ∨ s.IsPart t ∨ s.root.IsPart t :=
    fun h => h.imp .inl .inl
  have hcut (h : s.IsCut t) : (t = s ∨ t = s.root) ∨ s.IsPart t ∨ s.root.IsPart t :=
    hself (.inr h.isPart)
  cases h with
  | root => exact .inl (.inr rfl)
  | substring h => exact hcut (isCut_substring h)
  | substringFrom h => exact hcut (isCut_substring h)
  | charSegmentAt h => exact hcut (isCut_charSegmentAt hs h)
  | tail => exact hcut (isCut_tail hs)
  | charBefore => exact .inr ((isCut_charBefore hs).imp IsCut.isPart IsCut.isPart)
  | charAfter => exact .inr ((isCut_charAfter hs).imp IsCut.isPart IsCut.isPart)
  | trim => exact hself ((isCut_trim hs).imp_right IsCut.isPart)
  | split h => exact hself (isPart_split hs h)
  | splitText h ht => exact hself (isPart_splitText hs h ht)
  | lines h => exact hself (isPart_lines hs h)
  | group h =>
    -- A matcher still searches the segment that it was made for.
    rename_i p ops index
    have hm := Matcher.run_coherent (Matcher.new_coherent hs p) ops
    have hgroup := isCut_groupAt? hm h
    rw [Matcher.segment_run] at hgroup
    exact hcut hgroup
  | parsed h =>
    rename_i ops op
    obtain ⟨hp, hsegment⟩ := Parser.run_placed (Parser.ofSegment_placed hs) ops
    have hanswer := (Parser.perform_reads hp op).part t h
    rw [hsegment] at hanswer
    exact hcut hanswer

/-- What the root has and parts keep, all segments have. Parts may count on being part of a segment
that is well placed in the document. -/
theorem Reachable.preserves {d : Document} {P : Segment → Prop} (hroot : P (ofDocument d))
    (hpart : ∀ s t, s.WellPlaced → s.document = d → P s → s.IsPart t → P t)
    (h : Reachable d s) : s.WellPlaced ∧ s.document = d ∧ P s := by
  induction h with
  | root => exact ⟨wellPlaced_ofDocument d, rfl, hroot⟩
  | step hs h ih =>
    obtain ⟨hplaced, hdocument, hP⟩ := ih
    rename_i s t
    have hr : s.root = ofDocument d := by rw [Segment.root, hdocument]
    rcases h.eq_or_isPart hplaced with (rfl | rfl) | h | h
    · exact ⟨hplaced, hdocument, hP⟩
    · rw [hr]
      exact ⟨wellPlaced_ofDocument d, rfl, hroot⟩
    · exact ⟨h.wellPlaced hplaced, h.document_eq.trans hdocument, hpart s t hplaced hdocument hP h⟩
    · rw [hr] at h
      exact ⟨h.wellPlaced (wellPlaced_ofDocument d), h.document_eq,
        hpart _ t (wellPlaced_ofDocument d) rfl hroot h⟩

/-- Every segment of a document is a part of it. -/
theorem Reachable.wellPlaced {d : Document} (h : Reachable d s) :
    s.WellPlaced ∧ s.document = d := by
  obtain ⟨hs, hd, -⟩ := h.preserves (P := fun _ => True) trivial fun _ _ _ _ _ _ => trivial
  exact ⟨hs, hd⟩

end SourceText.Segment
