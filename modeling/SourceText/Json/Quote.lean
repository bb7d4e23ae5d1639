import SourceText.Text.Basic

/-!
# Strings of JSON

How a text is written as a string of JSON. Only what has to be escaped is.
-/

namespace SourceText.Json

/-- How a character is written in a string: a quote, a backslash and the control characters before
the space are escaped, the others stand for themselves. -/
def escape (c : Char) : Text :=
  if c = '"' then ['\\', '"']
  else if c = '\\' then ['\\', '\\']
  else if c = '\x08' then ['\\', 'b']
  else if c = '\x0c' then ['\\', 'f']
  else if c = '\n' then ['\\', 'n']
  else if c = '\r' then ['\\', 'r']
  else if c = '\t' then ['\\', 't']
  else if c.toNat < 0x10 then ['\\', 'u', '0', '0', '0'] ++ Nat.toDigits 16 c.toNat
  else if c.toNat < 0x20 then ['\\', 'u', '0', '0'] ++ Nat.toDigits 16 c.toNat
  else [c]

/-- A string of JSON. -/
def quote (text : Text) : Text := '"' :: text.flatMap escape ++ ['"']

end SourceText.Json
