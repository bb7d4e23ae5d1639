import SourceText.Proofs.Text

/-!
# Spans in order

`Span.Inside` says that a span lies between two boundaries of a text in a range, and `Inside.cut`
cuts the text there. What a segment is split at, and what it is split into, are spans of its text
that come one after the other; `Span.InOrder` says so of a list. Any part of the list is in order
too (`InOrder.sublist`), which covers the separators that a limit leaves out and the pieces that are
dropped at the end. No two of them have a byte in common (`InOrder.eq_of_mem`).
-/

namespace SourceText.Span

open Text (isBoundary)

/-- The span lies between boundaries of a text that are no less than `low` and no more than
`high`. -/
structure Inside (text : Text) (low high : Nat) (s : Span) : Prop where
  /-- It starts at a boundary. -/
  start : isBoundary text s.start
  /-- It stops at a boundary. -/
  stop : isBoundary text s.stop
  /-- It starts in the range. -/
  low_le : low ≤ s.start
  /-- It does not stop before it starts. -/
  le : s.start ≤ s.stop
  /-- It stops in the range. -/
  le_high : s.stop ≤ high

/-- A span inside of bounds is inside of wider ones. -/
theorem Inside.mono {text : Text} {low low' high high' : Nat} {s : Span}
    (h : s.Inside text low high) (hl : low' ≤ low) (hh : high ≤ high') :
    s.Inside text low' high' :=
  ⟨h.start, h.stop, Nat.le_trans hl h.low_le, h.le, Nat.le_trans h.le_high hh⟩

/-- The text is cut where a span inside it starts and where it stops. -/
theorem Inside.cut {text : Text} {low high : Nat} {s : Span} (h : s.Inside text low high) :
    ∃ l m r, text = l ++ m ++ r ∧ Text.byteLength l = s.start ∧
      Text.byteLength (l ++ m) = s.stop :=
  Text.exists_slice h.le h.start h.stop

/-- A span inside what another covers cuts that further. -/
theorem Inside.nested_cut {text : Text} {low high low' high' : Nat} {s t : Span}
    (hs : s.Inside text low high)
    (ht : t.Inside (Text.slice text s.start s.stop) low' high') :
    ∃ l x y z r, text = l ++ (x ++ y ++ z) ++ r ∧
      s = ⟨Text.byteLength l, Text.byteLength (l ++ (x ++ y ++ z))⟩ ∧
      t = ⟨Text.byteLength x, Text.byteLength (x ++ y)⟩ := by
  obtain ⟨l, m, r, htext, hl, hm⟩ := hs.cut
  rw [htext, ← hl, ← hm, Text.slice_append] at ht
  obtain ⟨x, y, z, rfl, hx, hy⟩ := ht.cut
  exact ⟨l, x, y, z, r, htext, by rw [hl, hm], by rw [hx, hy]⟩

/-- The middle of a text is a span inside it. -/
theorem inside_of_cut (l m r : Text) :
    (⟨Text.byteLength l, Text.byteLength (l ++ m)⟩ : Span).Inside (l ++ m ++ r) 0
      (Text.byteLength (l ++ m ++ r)) where
  start := by simp
  stop := Text.isBoundary_append _ _
  low_le := Nat.zero_le _
  le := by simp
  le_high := by simp

/-- The spans lie between boundaries of the text, the first of them at or after offset `low` and
each other one at or after the end of the one before. -/
def InOrder (text : Text) : (low : Nat) → List Span → Prop
  | _, [] => True
  | low, s :: rest =>
    (low ≤ s.start ∧ s.start ≤ s.stop ∧ isBoundary text s.start ∧ isBoundary text s.stop) ∧
      InOrder text s.stop rest

namespace InOrder

variable {text : Text} {low : Nat} {spans : List Span}

/-- The first span may have more room in front of it. -/
theorem mono {low' : Nat} (h : InOrder text low spans) (hle : low' ≤ low) :
    InOrder text low' spans := by
  cases spans with
  | nil => trivial
  | cons s rest =>
    obtain ⟨⟨hlow, hs⟩, hrest⟩ := h
    exact ⟨⟨Nat.le_trans hle hlow, hs⟩, hrest⟩

/-- Spans that are left when some are left out are still in order. -/
theorem sublist {spans' : List Span} (h : InOrder text low spans)
    (hsub : spans'.Sublist spans) : InOrder text low spans' := by
  induction hsub generalizing low with
  | slnil => trivial
  | cons s _ ih =>
    -- A span that is left out gives its room to the next one.
    obtain ⟨⟨hlow, hs, -⟩, hrest⟩ := h
    exact (ih hrest).mono (Nat.le_trans hlow hs)
  | cons_cons s _ ih =>
    obtain ⟨hs, hrest⟩ := h
    exact ⟨hs, ih hrest⟩

/-- The spans of what is left of a text after `l` and `m`, and in front of them the span of `m`. -/
theorem cons_middle {l m t : Text} {n : Nat} (hn : Text.byteLength m = n)
    (h : InOrder (l ++ m ++ t) (Text.byteLength l + n) spans) :
    InOrder (l ++ (m ++ t)) (Text.byteLength l)
      (⟨Text.byteLength l, Text.byteLength l + n⟩ :: spans) := by
  rw [List.append_assoc] at h
  refine ⟨⟨Nat.le_refl _, Nat.le_add_right _ _, Text.isBoundary_append _ _, ?_⟩, h⟩
  rw [← hn, ← Text.byteLength_append, ← List.append_assoc]
  exact Text.isBoundary_append _ _

/-- Behind `l` the first span cuts the rest of the text in three, and the other spans lie behind its
start. -/
theorem exists_cut {l r : Text} {s : Span} (h : InOrder text (Text.byteLength l) (s :: spans))
    (htext : text = l ++ r) :
    ∃ m x r', r = m ++ (x ++ r') ∧
      s = ⟨Text.byteLength (l ++ m), Text.byteLength (l ++ m ++ x)⟩ ∧
      InOrder text (Text.byteLength (l ++ m)) spans := by
  obtain ⟨⟨hlow, hle, hstart, hstop⟩, hrest⟩ := h
  obtain ⟨l', x, r', htext', hl', hx⟩ := Text.exists_slice hle hstart hstop
  rw [List.append_assoc] at htext'
  rw [← hl'] at hlow
  obtain ⟨m, rfl, rfl⟩ := Text.exists_middle (htext.symm.trans htext') hlow
  exact ⟨m, x, r', rfl, by rw [hl', hx], hrest.mono (by rw [hl']; exact hle)⟩

/-- Each of the spans lies between boundaries in order. -/
theorem of_mem {s : Span} (h : InOrder text low spans) (hs : s ∈ spans) :
    low ≤ s.start ∧ s.start ≤ s.stop ∧ isBoundary text s.start ∧ isBoundary text s.stop := by
  induction spans generalizing low with
  | nil => simp at hs
  | cons a rest ih =>
    obtain ⟨ha, hrest⟩ := h
    rcases List.mem_cons.mp hs with rfl | hs
    · exact ha
    · obtain ⟨hlow, h⟩ := ih hrest hs
      exact ⟨by omega, h⟩

/-- Each of the spans stops before the next one starts. -/
theorem pairwise (h : InOrder text low spans) :
    spans.Pairwise fun s t => s.stop ≤ t.start := by
  induction spans generalizing low with
  | nil => exact .nil
  | cons s rest ih =>
    obtain ⟨-, hrest⟩ := h
    exact .cons (fun t ht => (hrest.of_mem ht).1) (ih hrest)

/-- No two of the spans have a byte in common. -/
theorem eq_of_mem {s t : Span} (h : InOrder text low spans) (hs : s ∈ spans) (ht : t ∈ spans)
    {n : Nat} (hsn : s.start ≤ n ∧ n < s.stop) (htn : t.start ≤ n ∧ n < t.stop) : s = t := by
  induction spans generalizing low with
  | nil => simp at hs
  | cons a rest ih =>
    obtain ⟨-, hrest⟩ := h
    rcases List.mem_cons.mp hs with rfl | hs' <;> rcases List.mem_cons.mp ht with rfl | ht'
    · rfl
    · have := (hrest.of_mem ht').1
      omega
    · have := (hrest.of_mem hs').1
      omega
    · exact ih hrest hs' ht'

/-- Each of the spans is inside the text. -/
theorem inside {s : Span} (h : InOrder text low spans) (hs : s ∈ spans) :
    s.Inside text low (Text.byteLength text) := by
  obtain ⟨hlow, hle, hstart, hstop⟩ := h.of_mem hs
  exact ⟨hstart, hstop, hlow, hle, Text.le_byteLength_of_isBoundary hstop⟩

end InOrder

end SourceText.Span
