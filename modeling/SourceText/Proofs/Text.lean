import Mathlib.Tactic.SplitIfs
import SourceText.Text.Basic

/-!
# Cutting a text

All that a text is cut into comes from one view of its offsets: offset `n` is a boundary exactly
when the text is `l ++ r` with `n` bytes in `l` (`isBoundary_iff`). What follows the offset is then
`r`, what comes before it `l`, and the text between two boundaries the middle of `l ++ m ++ r`
(`drop?_eq_some_iff`, `take?_eq_some_iff`, `slice?_eq_some_iff`). As every character has at least
one byte, a text is cut at an offset in one way only (`append_inj_of_byteLength`), and two cuts of
one text have a middle between them (`exists_middle`).
-/

namespace SourceText.Text

/-! ## Lengths -/

/-- The empty text has no bytes. -/
@[simp] theorem byteLength_nil : byteLength [] = 0 := rfl

/-- The bytes of a text are those of its first character and those of the rest. -/
@[simp] theorem byteLength_cons (c : Char) (t : Text) :
    byteLength (c :: t) = c.utf8Size + byteLength t := rfl

/-- Offsets add up: what follows a text of so many bytes starts behind these. -/
@[simp] theorem byteLength_append (a b : Text) :
    byteLength (a ++ b) = byteLength a + byteLength b := by
  induction a with
  | nil => simp
  | cons c a ih =>
    rw [List.cons_append, byteLength_cons, byteLength_cons, ih, Nat.add_assoc]

/-- The order of the characters makes no difference to the length. -/
@[simp] theorem byteLength_reverse (t : Text) : byteLength t.reverse = byteLength t := by
  induction t with
  | nil => rfl
  | cons c t ih =>
    rw [List.reverse_cons, byteLength_append, ih, byteLength_cons, byteLength_cons,
      byteLength_nil]
    omega

/-- Only the empty text has no bytes. -/
@[simp] theorem byteLength_eq_zero {t : Text} : byteLength t = 0 ↔ t = [] := by
  cases t with
  | nil => simp
  | cons c t =>
    have := c.utf8Size_pos
    simp only [byteLength_cons, reduceCtorEq, iff_false]
    omega

/-- No text has more characters than bytes. -/
theorem length_le_byteLength (t : Text) : t.length ≤ byteLength t := by
  induction t with
  | nil => exact Nat.le_refl _
  | cons c t ih =>
    have hc := c.utf8Size_pos
    rw [List.length_cons, byteLength_cons]
    omega

/-! ## Two cuts of one text -/

/-- What lies between two cuts of a text of which the first is not behind the second. -/
theorem exists_middle {l r l' r' : Text} (h : l ++ r = l' ++ r')
    (hle : byteLength l ≤ byteLength l') : ∃ m, l' = l ++ m ∧ r = m ++ r' := by
  rcases List.append_eq_append_iff.mp h with ⟨m, hl, hr⟩ | ⟨m, hl, hr⟩
  · exact ⟨m, hl, hr⟩
  · -- The second cut is not behind the first either, so both are one.
    have hm : m = [] := by
      rw [hl, byteLength_append] at hle
      exact byteLength_eq_zero.mp (by omega)
    subst hm
    exact ⟨[], by simpa using hl.symm, by simpa using hr.symm⟩

/-- A text is cut at an offset in one way. -/
theorem append_inj_of_byteLength {l r l' r' : Text} (h : l ++ r = l' ++ r')
    (hl : byteLength l = byteLength l') : l = l' ∧ r = r' := by
  obtain ⟨m, hm, hr⟩ := exists_middle h (Nat.le_of_eq hl)
  have : m = [] := by
    rw [hm, byteLength_append] at hl
    exact byteLength_eq_zero.mp (by omega)
  subst this
  exact ⟨by simpa using hm.symm, by simpa using hr⟩

/-! ## What follows an offset, and what comes before it -/

/-- Dropping bytes goes by whole characters, and fails inside of one. -/
theorem drop?_cons (c : Char) (t : Text) (n : Nat) :
    drop? (c :: t) n = if n = 0 then some (c :: t)
      else if c.utf8Size ≤ n then drop? t (n - c.utf8Size) else none := by
  cases n with
  | zero => simp [drop?]
  | succ n => simp [drop?]

/-- So does taking bytes from the front. -/
theorem take?_cons (c : Char) (t : Text) (n : Nat) :
    take? (c :: t) n = if n = 0 then some []
      else if c.utf8Size ≤ n then (take? t (n - c.utf8Size)).map (c :: ·) else none := by
  cases n with
  | zero => simp [take?]
  | succ n => simp [take?]

/-- At a cut, what is dropped is the text before it. -/
@[simp] theorem drop?_append (l r : Text) : drop? (l ++ r) (byteLength l) = some r := by
  induction l with
  | nil => cases r <;> simp [drop?]
  | cons c l ih =>
    have := c.utf8Size_pos
    rw [List.cons_append, drop?_cons, byteLength_cons, if_neg (by omega), if_pos (by omega),
      Nat.add_sub_cancel_left, ih]

/-- At a cut, what is taken is the text before it. -/
@[simp] theorem take?_append (l r : Text) : take? (l ++ r) (byteLength l) = some l := by
  induction l with
  | nil => cases r <;> simp [take?]
  | cons c l ih =>
    have := c.utf8Size_pos
    rw [List.cons_append, take?_cons, byteLength_cons, if_neg (by omega), if_pos (by omega),
      Nat.add_sub_cancel_left, ih, Option.map_some]

/-- What follows offset `n` is what is left after `n` bytes of whole characters. -/
theorem drop?_eq_some_iff {text r : Text} {n : Nat} :
    drop? text n = some r ↔ ∃ l, text = l ++ r ∧ byteLength l = n := by
  constructor
  · intro h
    induction text generalizing n with
    | nil =>
      cases n with
      | zero => exact ⟨[], by simpa [drop?] using h, rfl⟩
      | succ n => simp [drop?] at h
    | cons c t ih =>
      rw [drop?_cons] at h
      split_ifs at h with h0 hc
      · -- Nothing is dropped.
        exact ⟨[], by simpa using h, by simp [h0]⟩
      · -- The first character is, and the rest of the offset lies in the rest of the text.
        obtain ⟨l, rfl, hl⟩ := ih h
        exact ⟨c :: l, rfl, by rw [byteLength_cons]; omega⟩
  · rintro ⟨l, rfl, rfl⟩
    exact drop?_append l r

/-- What comes before offset `n` are `n` bytes of whole characters. -/
theorem take?_eq_some_iff {text l : Text} {n : Nat} :
    take? text n = some l ↔ ∃ r, text = l ++ r ∧ byteLength l = n := by
  constructor
  · intro h
    induction text generalizing n l with
    | nil =>
      cases n with
      | zero =>
        obtain rfl : [] = l := by simpa [take?] using h
        exact ⟨[], rfl, rfl⟩
      | succ n => simp [take?] at h
    | cons c t ih =>
      rw [take?_cons] at h
      split_ifs at h with h0 hc
      · -- Nothing is taken.
        obtain rfl : [] = l := by simpa using h
        exact ⟨c :: t, rfl, by simp [h0]⟩
      · -- The first character is, and then what `take?` makes of the rest.
        obtain ⟨l', hl', rfl⟩ := Option.map_eq_some_iff.mp h
        obtain ⟨r, rfl, hl⟩ := ih hl'
        exact ⟨r, rfl, by rw [byteLength_cons]; omega⟩
  · rintro ⟨r, rfl, rfl⟩
    exact take?_append l r

/-- An offset is a boundary when the text can be cut there. -/
theorem isBoundary_iff {text : Text} {n : Nat} :
    isBoundary text n = true ↔ ∃ l r, text = l ++ r ∧ byteLength l = n := by
  rw [isBoundary, Option.isSome_iff_exists]
  constructor
  · rintro ⟨r, h⟩
    obtain ⟨l, hl⟩ := drop?_eq_some_iff.mp h
    exact ⟨l, r, hl⟩
  · rintro ⟨l, r, h⟩
    exact ⟨r, drop?_eq_some_iff.mpr ⟨l, h⟩⟩

/-- Every cut of a text is at a boundary. -/
@[simp] theorem isBoundary_append (l r : Text) : isBoundary (l ++ r) (byteLength l) = true :=
  isBoundary_iff.mpr ⟨l, r, rfl, rfl⟩

/-- No boundary lies past the end. -/
theorem le_byteLength_of_isBoundary {text : Text} {n : Nat} (h : isBoundary text n = true) :
    n ≤ byteLength text := by
  obtain ⟨l, r, rfl, rfl⟩ := isBoundary_iff.mp h
  rw [byteLength_append]
  omega

/-- The start of a text is a boundary. -/
@[simp] theorem isBoundary_zero (text : Text) : isBoundary text 0 = true :=
  isBoundary_append [] text

/-- So is its end. -/
@[simp] theorem isBoundary_byteLength (text : Text) :
    isBoundary text (byteLength text) = true := by
  simpa using isBoundary_append text []

/-- The character at a cut is the first behind it. -/
@[simp] theorem charAt?_append (l r : Text) : charAt? (l ++ r) (byteLength l) = r.head? := by
  simp [charAt?]

/-- The character before a cut is the last in front of it. -/
@[simp] theorem charBefore?_append (l r : Text) :
    charBefore? (l ++ r) (byteLength l) = l.getLast? := by
  simp [charBefore?]

/-! ## Slices -/

/-- A slice is the middle of the text between two cuts. -/
theorem slice?_eq_some_iff {text m : Text} {a b : Nat} :
    slice? text a b = some m ↔
      ∃ l r, text = l ++ m ++ r ∧ byteLength l = a ∧ byteLength (l ++ m) = b := by
  rw [slice?]
  constructor
  · intro h
    split_ifs at h with hab
    -- What is dropped in front is `l`, and what is left behind is `r`.
    obtain ⟨rest, hdrop, htake⟩ := Option.bind_eq_some_iff.mp h
    obtain ⟨l, rfl, hl⟩ := drop?_eq_some_iff.mp hdrop
    obtain ⟨r, rfl, hm⟩ := take?_eq_some_iff.mp htake
    exact ⟨l, r, by rw [List.append_assoc], hl, by rw [byteLength_append]; omega⟩
  · rintro ⟨l, r, rfl, rfl, rfl⟩
    rw [byteLength_append, if_pos (by omega), List.append_assoc, drop?_append, Option.bind_some,
      Nat.add_sub_cancel_left, take?_append]

/-- The middle of a text, found by its offsets. -/
@[simp] theorem slice_append (l m r : Text) :
    slice (l ++ m ++ r) (byteLength l) (byteLength (l ++ m)) = m := by
  rw [slice, slice?_eq_some_iff.mpr ⟨l, r, rfl, rfl, rfl⟩, Option.getD_some]

/-- Two boundaries in order have a slice between them. -/
theorem exists_slice {text : Text} {a b : Nat} (hab : a ≤ b) (ha : isBoundary text a = true)
    (hb : isBoundary text b = true) :
    ∃ l m r, text = l ++ m ++ r ∧ byteLength l = a ∧ byteLength (l ++ m) = b := by
  obtain ⟨l, r, rfl, rfl⟩ := isBoundary_iff.mp ha
  obtain ⟨l', r', h, rfl⟩ := isBoundary_iff.mp hb
  obtain ⟨m, rfl, rfl⟩ := exists_middle h hab
  exact ⟨l, m, r', by rw [List.append_assoc], rfl, rfl⟩

/-- Boundaries of a slice are boundaries of the text, moved on by what comes before the slice. -/
theorem isBoundary_slice {l m r : Text} {n : Nat} (h : isBoundary m n = true) :
    isBoundary (l ++ m ++ r) (byteLength l + n) = true := by
  obtain ⟨m₁, m₂, rfl, rfl⟩ := isBoundary_iff.mp h
  exact isBoundary_iff.mpr ⟨l ++ m₁, m₂ ++ r, by simp, by simp⟩

/-- Boundaries of the text that are not outside of a slice are boundaries of the slice. -/
theorem isBoundary_of_slice {l m r : Text} {n : Nat} (h : isBoundary (l ++ m ++ r) n = true)
    (hl : byteLength l ≤ n) (hm : n ≤ byteLength (l ++ m)) :
    isBoundary m (n - byteLength l) = true := by
  obtain ⟨a, b, htext, rfl⟩ := isBoundary_iff.mp h
  -- The cut comes after `l`, and not after the slice.
  have hfront : l ++ (m ++ r) = a ++ b := by rw [← List.append_assoc, htext]
  obtain ⟨x, rfl, hx⟩ := exists_middle hfront hl
  obtain ⟨y, hy, rfl⟩ := exists_middle htext.symm hm
  rw [List.append_assoc, List.append_cancel_left_eq] at hy
  rw [hy, byteLength_append, Nat.add_sub_cancel_left]
  exact isBoundary_append x y

end SourceText.Text
