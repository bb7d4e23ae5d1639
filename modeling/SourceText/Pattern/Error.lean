/-!
# Why a text is not a pattern
-/

namespace SourceText.Pattern

/-- What is wrong with a text that was to be read as a pattern. -/
inductive SyntaxError where
  /-- A group is never closed. -/
  | unclosedGroup
  /-- A closing parenthesis has no group to close. -/
  | unopenedGroup
  /-- A bracketed class is never closed. -/
  | unclosedClass
  /-- There is nothing before a repetition sign. -/
  | nothingToRepeat
  /-- The counts of a repetition are not written as one or two numbers. -/
  | badCount
  /-- The greatest count of a repetition is less than the least. -/
  | reversedCount
  /-- The last character of a range comes before the first. -/
  | reversedRange
  /-- An end of a range is not a character, or an assertion stands in a class. -/
  | notACharacter
  /-- A backslash stands before a character that it gives no meaning. -/
  | unknownEscape
  /-- A backslash stands at the end of the text. -/
  | unfinishedEscape
  /-- A group is referred to by number. -/
  | backReference
  /-- A group looks ahead or behind. -/
  | lookAround
  /-- A code point is not written in hexadecimal digits or is not that of a character. -/
  | badCodePoint
  /-- A class is asked for by a property of characters. -/
  | unknownProperty
  /-- The name of a word boundary is none of the four. -/
  | unknownBoundary
  /-- The name of a group is empty, ends too soon, or holds a character that no name holds. -/
  | badGroupName
  /-- Two groups have the same name. -/
  | duplicateGroupName
  /-- A letter is no flag. -/
  | unknownFlag
  /-- A flag is given twice, or negated twice. -/
  | duplicateFlag
  /-- A minus sign stands before no flag. -/
  | nothingToNegate
  /-- The parts of the pattern are nested too deeply. -/
  | tooDeep
  /-- The pattern is too large once its repetitions are written out. -/
  | tooLarge
  deriving DecidableEq, Repr

end SourceText.Pattern
