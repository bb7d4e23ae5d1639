import SourceText.Proofs.Tiling

/-!
# Lines

What the lines of a segment are can be said by its characters alone. `LineBreak.written` reads the
line breaks off a text: a carriage return and a line feed are one, and so is either of them without
the other. These are the texts of the spans that a scan of the bytes finds
(`LineBreak.map_slice_spans`). The lines are the rows of the segment, each once and in order
(`Segment.map_lines`). So there is one line more than there are breaks, no line has a break in it,
line `i` begins `i` rows below the start, and with the breaks between them the lines are the text
(`Segment.Reachable.lines_separated`).

Rows are numbered without a bound. `Proofs.Machine.Rows` says how far a machine finds the lines.
-/

namespace SourceText

open Text (byteLength utf8)

namespace LineBreak

/-- The line breaks of a text as they are written. -/
def written : Text → List Text
  | [] => []
  | '\r' :: '\n' :: rest => ['\r', '\n'] :: written rest
  | c :: rest => if c = '\n' ∨ c = '\r' then [c] :: written rest else written rest

/-- No break begins with another character. -/
theorem written_other {c : Char} (hn : c ≠ '\n') (hr : c ≠ '\r') (t : Text) :
    written (c :: t) = written t := by
  rw [written]
  · rw [if_neg (by simp [hn, hr])]
  · exact fun rest hc => absurd hc hr

/-- A line feed is a break by itself. -/
theorem written_lineFeed (t : Text) : written ('\n' :: t) = ['\n'] :: written t := by
  rw [written]
  · rfl
  · exact fun rest hc => absurd hc (by decide)

/-- So is a carriage return that no line feed follows. -/
theorem written_return {t : Text} (ht : t.head? ≠ some '\n') :
    written ('\r' :: t) = ['\r'] :: written t := by
  rw [written]
  · rfl
  · rintro rest - rfl
    exact ht rfl

/-- A break is written as a pair, or as either half of one. -/
theorem eq_of_mem_written {text m : Text} (h : m ∈ written text) :
    m = ['\r', '\n'] ∨ m = ['\r'] ∨ m = ['\n'] := by
  induction text using byBreaks with
  | nil => simp [written] at h
  | other c t hn hr ih =>
    rw [written_other hn hr] at h
    exact ih h
  | lineFeed t ih =>
    rw [written_lineFeed] at h
    rcases List.mem_cons.mp h with rfl | h
    · exact .inr (.inr rfl)
    · exact ih h
  | pair t ih =>
    rw [written] at h
    rcases List.mem_cons.mp h with rfl | h
    · exact .inl rfl
    · exact ih h
  | ret t ht ih =>
    rw [written_return ht] at h
    rcases List.mem_cons.mp h with rfl | h
    · exact .inr (.inl rfl)
    · exact ih h

/-- A break `m` that a scan finds behind `l` reads as it is written. -/
theorem map_slice_scan_append {m t : Text} (l : Text)
    (hscan : scan (byteLength l) (utf8 (m ++ t)) = ⟨byteLength l, byteLength l + byteLength m⟩ ::
      scan (byteLength l + byteLength m) (utf8 t))
    (h : (scan (byteLength (l ++ m)) (utf8 t)).map
      (fun b => Text.slice (l ++ m ++ t) b.start b.stop) = written t) :
    (scan (byteLength l) (utf8 (m ++ t))).map
      (fun b => Text.slice (l ++ (m ++ t)) b.start b.stop) = m :: written t := by
  rw [hscan, List.map_cons, ← Text.byteLength_append, ← List.append_assoc, Text.slice_append, h]

/-- The breaks that a scan finds behind `l` read as they are written. -/
theorem map_slice_scan (l t : Text) :
    (scan (byteLength l) (utf8 t)).map (fun b => Text.slice (l ++ t) b.start b.stop) =
      written t := by
  induction t using byBreaks generalizing l with
  | nil => rfl
  | other c t hn hr ih =>
    have h := ih (l ++ [c])
    rw [List.append_assoc, Text.byteLength_append] at h
    rw [scan_other hn hr, written_other hn hr]
    exact h
  | lineFeed t ih =>
    rw [written_lineFeed]
    exact map_slice_scan_append l (scan_lineFeed _ t) (ih (l ++ ['\n']))
  | pair t ih => exact map_slice_scan_append l (scan_pair _ t) (ih (l ++ ['\r', '\n']))
  | ret t ht ih =>
    rw [written_return ht]
    exact map_slice_scan_append l (scan_return ht _) (ih (l ++ ['\r']))

/-- The line breaks that are found in a text are those that are written in it. -/
theorem map_slice_spans (text : Text) :
    (spans text).map (fun b => Text.slice text b.start b.stop) = written text :=
  map_slice_scan [] text

/-- So there are as many. -/
theorem length_written (text : Text) : (written text).length = (spans text).length := by
  rw [← map_slice_spans, List.length_map]

end LineBreak

namespace Segment

variable {s : Segment}

/-- The lines are what the line breaks of a segment separate. -/
structure SeparatedInto (s : Segment) (lines : List Segment) : Prop where
  /-- There is one line more than there are breaks. -/
  length : lines.length = (LineBreak.written s.text).length + 1
  /-- No line has a break in it. -/
  unbroken : ∀ line ∈ lines, '\r' ∉ line.text ∧ '\n' ∉ line.text
  /-- The first line starts where the segment does. Line `i` starts `i` rows further down, at the
  first column. -/
  start : ∀ i line, lines[i]? = some line →
    line.start = if i = 0 then s.start else ⟨s.start.line + i, 0⟩
  /-- The lines and the breaks, by turns, are the text. -/
  text : Split.interleave (lines.map Segment.text) (LineBreak.written s.text) = s.text

/-- Line `i` starts where row `i` does, counted from that of the start. -/
theorem start_of_getElem?_lines (hs : s.WellPlaced) {i : Nat} {line : Segment}
    (h : s.lines[i]? = some line) : line.start = s.start.lineStart (s.start.line + i) := by
  have hi : i < (LineBreak.spans s.text).length + 1 := by
    rw [← length_lines hs]
    exact (List.getElem?_eq_some_iff.mp h).1
  have hline : (s.lines.map fun line => (line.start, line.text))[i]? =
      some (line.start, line.text) := by
    rw [List.getElem?_map, h, Option.map_some]
  rw [map_lines hs, List.getElem?_map, List.getElem?_range' hi, Option.map_some, Nat.one_mul]
    at hline
  exact (congrArg Prod.fst (Option.some.inj hline)).symm

/-- The lines of a segment are what its line breaks separate. -/
theorem Reachable.lines_separated {d : Document} (hs : Reachable d s) :
    s.SeparatedInto s.lines := by
  obtain ⟨hplaced, -⟩ := hs.wellPlaced
  refine
    { length := ?_
      unbroken := fun line hline => ?_
      start := fun i line hline => ?_
      text := ?_ }
  · rw [length_lines hplaced, LineBreak.length_written]
  · obtain ⟨-, htext⟩ := row_of_mem_lines hplaced hline
    have hne : ∀ c ∈ line.text, c ≠ '\n' ∧ c ≠ '\r' := by
      rw [htext]
      exact fun c hc => Position.ne_of_mem_row hc
    exact ⟨fun hmem => (hne _ hmem).2 rfl, fun hmem => (hne _ hmem).1 rfl⟩
  · rw [start_of_getElem?_lines hplaced hline, Position.lineStart]
    simp only [Nat.add_eq_left]
  · have htiled := (tiledBy_lines hplaced).text
    rwa [LineBreak.map_slice_spans] at htiled

end Segment

end SourceText
