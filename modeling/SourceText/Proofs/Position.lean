import Mathlib.Data.List.Basic
import Mathlib.Tactic.SplitIfs
import SourceText.Position
import SourceText.Proofs.Text

/-!
# Walks in parts

A walk over `l ++ m` is the walk over `l` and then that over `m`, if the first is told the character
that follows `l` (`Position.advance_append`). So the walk that stands between `l` and `r` depends on
the cut alone, `Tracker.past`, and a tracker that is moved on from one cut of a text to a later one
stands where a fresh one would (`Tracker.advanceTo_past`). The last character of a text is where the
walk over all before it leads (`EndPosition.of_concat`). Lines never go back, columns grow by at
most one a character, and a walk that stays on its line has gone one column a character.
-/

namespace SourceText

namespace Position

/-! ## Walks over appended texts -/

/-- A walk over nothing stays where it is, whatever comes next. -/
@[simp] theorem advance_nil (p : Position) (next? : Option Char) : p.advance [] next? = p := rfl

/-- A walk passes its first character, which is followed by the next one of the text or, if there is
none, by what comes behind the text. -/
theorem advance_cons (p : Position) (c : Char) (t : Text) (next? : Option Char) :
    p.advance (c :: t) next? = (p.after c (t.head?.or next?)).advance t next? := by
  cases t with
  | nil => rfl
  | cons d t => rfl

/-- A walk in two parts, of which the first knows the character that the second begins with. -/
theorem advance_append (p : Position) (l m : Text) (next? : Option Char) :
    p.advance (l ++ m) next? = (p.advance l (m.head?.or next?)).advance m next? := by
  -- Both walks are told the same character after each of `l`: the next one of `l ++ m`.
  induction l generalizing p with
  | nil => rfl
  | cons c l ih =>
    rw [List.cons_append, advance_cons, ih, advance_cons, List.head?_append, Option.or_assoc]

/-- The walk over one character more. -/
theorem advance_concat (p : Position) (l : Text) (c : Char) (next? : Option Char) :
    p.advance (l ++ [c]) next? = (p.advance l (some c)).after c next? := by
  rw [advance_append]
  rfl

/-- The last character is where the walk over all before it leads. -/
theorem last?_concat (p : Position) (l : Text) (c : Char) :
    p.last? (l ++ [c]) = some (p.advance l (some c)) := by
  induction l generalizing p with
  | nil => rfl
  | cons a l ih =>
    cases l with
    | nil => rfl
    | cons b l => exact ih (p.after a (some b))

/-! ## Lines and columns -/

/-- A character leads to the next column, or to the start of the next line. -/
theorem after_eq (p : Position) (c : Char) (next? : Option Char) :
    p.after c next? = ⟨p.line, p.col + 1⟩ ∨
      (c = '\n' ∨ c = '\r') ∧ p.after c next? = ⟨p.line + 1, 0⟩ := by
  unfold after
  split_ifs with h
  · right
    exact ⟨h.imp_right And.left, rfl⟩
  · left
    rfl

/-- Lines never go back. -/
theorem line_le_advance (p : Position) (l : Text) (next? : Option Char) :
    p.line ≤ (p.advance l next?).line := by
  induction l generalizing p with
  | nil => exact Nat.le_refl _
  | cons c l ih =>
    rw [advance_cons]
    have hstep := ih (p.after c (l.head?.or next?))
    rcases after_eq p c (l.head?.or next?) with h | ⟨-, h⟩
    · -- The next column of the same line.
      rw [h] at hstep ⊢
      exact hstep
    · -- The start of the next line.
      rw [h] at hstep ⊢
      exact Nat.le_of_succ_le hstep

/-- A walk that goes on is not on an earlier line. -/
theorem line_advance_le (p : Position) (l r : Text) :
    (p.advance l r.head?).line ≤ (p.advance (l ++ r) none).line := by
  rw [advance_append, Option.or_none]
  exact line_le_advance _ _ _

/-- A walk that goes on past a line feed or a carriage return comes to a later line. After a
carriage return it may be the line feed behind it that leads there. -/
theorem line_advance_lt_of_break (p : Position) (l r : Text) {c : Char}
    (hc : c = '\n' ∨ c = '\r') :
    (p.advance l (some c)).line < (p.advance (l ++ c :: r) none).line := by
  simp only [advance_append, advance_cons, List.head?_cons, Option.or_none]
  generalize p.advance l (some c) = q
  by_cases hpair : c = '\r' ∧ r.head? = some '\n'
  · -- The line feed behind the carriage return leads to the next line.
    obtain ⟨rfl, hhead⟩ := hpair
    obtain ⟨r, rfl⟩ := List.head?_eq_some_iff.mp hhead
    rw [advance_cons]
    exact line_le_advance ⟨q.line + 1, 0⟩ r none
  · -- The character does so on its own.
    have hafter : q.after c r.head? = ⟨q.line + 1, 0⟩ := by
      unfold after
      rw [if_pos]
      exact hc.imp_right fun hr => ⟨hr, fun hhead => hpair ⟨hr, hhead⟩⟩
    rw [hafter]
    exact line_le_advance ⟨q.line + 1, 0⟩ r none

/-- Columns grow by at most one a character. -/
theorem col_advance_le (p : Position) (l : Text) (next? : Option Char) :
    (p.advance l next?).col ≤ p.col + l.length := by
  induction l generalizing p with
  | nil => exact Nat.le_refl _
  | cons c l ih =>
    rw [advance_cons, List.length_cons]
    have hstep := ih (p.after c (l.head?.or next?))
    rcases after_eq p c (l.head?.or next?) with h | ⟨-, h⟩
    · rw [h] at hstep ⊢
      simp only at hstep
      omega
    · rw [h] at hstep ⊢
      simp only at hstep
      omega

/-- A walk that stays on its line goes one column on with each character. -/
theorem col_advance_of_line_eq {p : Position} {l : Text} {next? : Option Char}
    (h : (p.advance l next?).line = p.line) : (p.advance l next?).col = p.col + l.length := by
  induction l generalizing p with
  | nil => rfl
  | cons c l ih =>
    rw [advance_cons] at h ⊢
    rw [List.length_cons]
    have hle := line_le_advance (p.after c (l.head?.or next?)) l next?
    rcases after_eq p c (l.head?.or next?) with hc | ⟨-, hc⟩
    · rw [hc] at h ⊢
      have hcol := ih (p := ⟨p.line, p.col + 1⟩) h
      simp only at hcol
      omega
    · -- A walk that has left the line does not come back to it.
      rw [hc] at h hle
      simp only at hle
      omega

end Position

/-! ## The last character -/

/-- Columns up to the greatest signed one keep their value. -/
theorem signedCol_of_le {col : Nat} (h : col ≤ maxSignedCol) : signedCol col = col := by
  unfold signedCol
  omega

/-- What is empty stops one column before its start. -/
@[simp] theorem EndPosition.of_nil (p : Position) :
    EndPosition.of p [] = ⟨p.line, signedCol p.col - 1⟩ := rfl

/-- The end of a text, where the walk over all but its last character leads. -/
theorem EndPosition.of_concat (p : Position) (l : Text) (c : Char) :
    EndPosition.of p (l ++ [c]) =
      ⟨(p.advance l (some c)).line, signedCol ((p.advance l (some c)).col + 1) - 1⟩ := by
  rw [EndPosition.of, Position.last?_concat]

/-- The end of a text is that of what is left of it behind a cut, from where the walk to the cut
leads. -/
theorem EndPosition.of_append (p : Position) (l : Text) {r : Text} (hr : r ≠ []) :
    EndPosition.of p (l ++ r) = EndPosition.of (p.advance l r.head?) r := by
  obtain rfl | ⟨b, c, rfl⟩ := r.eq_nil_or_concat'
  · exact absurd rfl hr
  · -- The last character is reached in one walk or in two.
    have hwalk : p.advance (l ++ b) (some c) =
        (p.advance l (b ++ [c]).head?).advance b (some c) := by
      rw [Position.advance_append, List.head?_append]
      rfl
    rw [← List.append_assoc, EndPosition.of_concat, EndPosition.of_concat, hwalk]

/-- A text does not end on a line before that of its start. -/
theorem EndPosition.line_le (p : Position) (text : Text) :
    p.line ≤ (EndPosition.of p text).line := by
  obtain rfl | ⟨l, c, rfl⟩ := text.eq_nil_or_concat'
  · exact Nat.le_refl _
  · rw [EndPosition.of_concat]
    exact p.line_le_advance l (some c)

/-- A text with more behind it does not end on a later line than the two together. -/
theorem EndPosition.line_le_append (p : Position) {l : Text} (hl : l ≠ []) (r : Text) :
    (EndPosition.of p l).line ≤ (EndPosition.of p (l ++ r)).line := by
  obtain rfl | ⟨b, c, rfl⟩ := l.eq_nil_or_concat'
  · exact absurd rfl hl
  · -- The text with `r` behind it goes on from its last character.
    have htext : b ++ [c] ++ r = b ++ c :: r := by rw [List.append_assoc]; rfl
    rw [htext, EndPosition.of_append p b (List.cons_ne_nil c r), EndPosition.of_concat]
    exact EndPosition.line_le _ _

/-! ## Trackers -/

namespace Tracker

open Text (byteLength)

/-- The walk from `p` that has gone past `l` and has `r` ahead. -/
def past (p : Position) (l r : Text) : Tracker := ⟨r, byteLength l, p.advance l r.head?⟩

/-- A walk that has not begun is past nothing. -/
theorem start_eq_past (text : Text) (p : Position) : start text p = past p [] text := rfl

/-- A walk stops at the first cut it is sent to. -/
theorem walk_append (l r : Text) (offset : Nat) (p : Position) :
    walk (offset + byteLength l) (l ++ r) offset p =
      ⟨r, offset + byteLength l, p.advance l r.head?⟩ := by
  induction l generalizing offset p with
  | nil => cases r <;> simp [walk]
  | cons c l ih =>
    -- The walk goes on, since the character in front has at least one byte.
    have hc := c.utf8Size_pos
    rw [List.cons_append, walk, Text.byteLength_cons, if_pos (by omega), ← Nat.add_assoc, ih,
      Position.advance_cons, List.head?_append]

/-- A tracker that is moved on to a later cut stands where a fresh one would. -/
theorem advanceTo_past (p : Position) (l m r : Text) :
    (past p l (m ++ r)).advanceTo (byteLength (l ++ m)) = past p (l ++ m) r := by
  rw [past, advanceTo, Text.byteLength_append, walk_append, List.head?_append,
    ← Position.advance_append, past, Text.byteLength_append]

end Tracker

end SourceText
