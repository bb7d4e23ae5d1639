import SourceText.Pattern.Basic

/-!
# The tokens that parsers know

The patterns of blanks, of words between blanks, and of decimal numerals. Each begins with the start
of the text, so that a search for it does not look further than where it stands. They are given as
trees, and reading their texts gives these trees.
-/

namespace SourceText.Token

open Pattern Pattern.Node

/-- One or more characters of a set. -/
def oneOrMore (s : CharSet) : Node := rep (set s) 1 none true

/-- Any number of characters of a set. -/
def zeroOrMore (s : CharSet) : Node := rep (set s) 0 none true

/-- A node, or nothing. -/
def optional (n : Node) : Node := rep n 0 (some 1) true

/-- The blanks of ASCII: the tab, the four characters that end lines or pages, and the space. -/
def blank : CharSet := ⟨[⟨0x09, 0x0D⟩, ⟨0x20, 0x20⟩]⟩

/-- The characters that are not blanks of ASCII. -/
def nonblank : CharSet := ⟨[⟨0x00, 0x08⟩, ⟨0x0E, 0x1F⟩, ⟨0x21, 0x10FFFF⟩]⟩

/-- A run of blanks. -/
def blanks : Pattern where
  source := "\\A[\\t\\n\\x0B\\x0C\\r ]+".toList
  node := seq (assertion .textStart) (oneOrMore blank)

/-- A run of characters that are not blanks. -/
def word : Pattern where
  source := "\\A[^\\t\\n\\x0B\\x0C\\r ]+".toList
  node := seq (assertion .textStart) (oneOrMore nonblank)

/-- The decimal digits of ASCII. -/
def digit : CharSet := ⟨[⟨0x30, 0x39⟩]⟩

/-- The signs of a numeral. -/
def sign : CharSet := ⟨[⟨0x2B, 0x2B⟩, ⟨0x2D, 0x2D⟩]⟩

/-- The letters before an exponent. -/
def exponentLetter : CharSet := ⟨[⟨0x45, 0x45⟩, ⟨0x65, 0x65⟩]⟩

/-- The digits of a numeral and its point, on either side of which the digits may be missing. -/
def mantissa : Node :=
  alt (seq (oneOrMore digit) (optional (group 2 none (seq (literal ['.']) (zeroOrMore digit)))))
    (seq (literal ['.']) (oneOrMore digit))

/-- The exponent of a numeral. -/
def exponent : Node :=
  seq (set exponentLetter) (seq (optional (set sign)) (oneOrMore digit))

/-- A decimal numeral such as `42`, `-3.5`, `.5`, `7.` or `6.02e23`. -/
def numeral : Pattern where
  source := "\\A[-+]?([0-9]+(\\.[0-9]*)?|\\.[0-9]+)([eE][+-]?[0-9]+)?".toList
  node := seq (assertion .textStart)
    (seq (optional (set sign))
      (seq (group 1 none mantissa) (optional (group 3 none exponent))))

/-- The text of `blanks` reads as its tree. -/
theorem compile_blanks : Pattern.compile {} blanks.source = .ok blanks := by rfl

/-- The text of `word` reads as its tree. -/
theorem compile_word : Pattern.compile {} word.source = .ok word := by rfl

/-- The text of `numeral` reads as its tree. -/
theorem compile_numeral : Pattern.compile {} numeral.source = .ok numeral := by rfl

end SourceText.Token
