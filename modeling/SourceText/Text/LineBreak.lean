import SourceText.Text.Basic

/-!
# Line breaks

A line ends with a line feed, with a carriage return, or with the two in this order, which then
count as one break. `LineBreak.spans` finds the breaks of a text by reading its bytes: no byte of a
longer character equals either of the two, so what is found in the bytes is what the characters
say.
-/

namespace SourceText.LineBreak

/-- The breaks in a run of bytes whose first byte has offset `offset`. -/
def scan (offset : Nat) : List UInt8 → List Span
  | [] => []
  | [b] => if b = 10 ∨ b = 13 then [⟨offset, offset + 1⟩] else []
  | b :: b' :: rest =>
    if b = 10 then ⟨offset, offset + 1⟩ :: scan (offset + 1) (b' :: rest)
    else if b = 13 then
      if b' = 10 then ⟨offset, offset + 2⟩ :: scan (offset + 2) rest
      else ⟨offset, offset + 1⟩ :: scan (offset + 1) (b' :: rest)
    else scan (offset + 1) (b' :: rest)

/-- The line breaks of a text, in order. -/
def spans (text : Text) : List Span := scan 0 text.utf8

end SourceText.LineBreak
