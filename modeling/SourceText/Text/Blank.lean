import SourceText.Text.CodeRange

/-!
# White space

The characters with the White_Space property of Unicode: the blanks and line ends of ASCII, the
next-line control, the spaces of various widths and the two separators of lines and paragraphs.
-/

namespace SourceText.Blank

/-- The characters with the White_Space property. -/
def table : List CodeRange := [
  ⟨0x9, 0xD⟩, ⟨0x20, 0x20⟩, ⟨0x85, 0x85⟩, ⟨0xA0, 0xA0⟩, ⟨0x1680, 0x1680⟩, ⟨0x2000, 0x200A⟩,
  ⟨0x2028, 0x2029⟩, ⟨0x202F, 0x202F⟩, ⟨0x205F, 0x205F⟩, ⟨0x3000, 0x3000⟩]

/-- Whether `c` is white space. -/
def isBlank (c : Char) : Bool := CodeRange.anyContains table c

end SourceText.Blank
