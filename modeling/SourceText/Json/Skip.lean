import SourceText.Json.Token

/-!
# Passing over values

A value of JSON that nothing is read from still has to be well formed, up to its numbers' size and
its strings' UTF-16 units. It is passed over with a stack of the arrays and objects that are open.
-/

namespace SourceText.Json

/-- An array or object that is open. -/
inductive Container where
  | array
  | object
  deriving DecidableEq, Repr

/-- The sign that closes a container. -/
def Container.closing : Container → Char
  | array => ']'
  | object => '\x7d'

/-- What comes next inside the open containers. -/
inductive Expected where
  /-- A value. -/
  | value
  /-- The first item of a container that has just been opened, or its end. -/
  | firstItem
  /-- A comma and another item, or the end of the container. -/
  | nextItem
  deriving DecidableEq, Repr

/-- Passes over a value that is neither array nor object. -/
def skipScalar : Text → Except Failure Text
  | [] => .error .truncated
  | c :: rest =>
    if c = 'n' then readWord ['u', 'l', 'l'] rest
    else if c = 't' then readWord ['r', 'u', 'e'] rest
    else if c = 'f' then readWord ['a', 'l', 's', 'e'] rest
    else if c = '"' then skipString rest
    else if c = '-' ∨ c.isDigit then (readNumber .malformed (c :: rest)).map Prod.snd
    else .error .malformed

/-- Passes over the key of an item and its colon, when the item is one of an object. -/
def skipKey : Container → Text → Except Failure Text
  | .array, text => .ok text
  | .object, text =>
    match skipBlanks text with
    | [] => .error .truncated
    | '"' :: rest =>
      match skipString rest with
      | .error e => .error e
      | .ok rest =>
        match skipBlanks rest with
        | [] => .error .truncated
        | ':' :: rest => .ok rest
        | _ => .error .malformed
    | _ => .error .malformed

/-- Passes over values until all open containers are closed. Two steps take at least one character,
so twice the length of the text bounds their number. -/
def skipOpen : Nat → List Container → Expected → Text → Except Failure Text
  | 0, _, _, _ => .error .malformed
  | n + 1, inside, .value, text =>
    match skipBlanks text with
    | [] => .error .truncated
    | '[' :: rest => skipOpen n (.array :: inside) .firstItem rest
    | '\x7b' :: rest => skipOpen n (.object :: inside) .firstItem rest
    | text =>
      match skipScalar text with
      | .error e => .error e
      | .ok rest => skipOpen n inside .nextItem rest
  | _, [], _, text => .ok text
  | n + 1, container :: outer, expected, text =>
    match skipBlanks text with
    | [] => .error .truncated
    | c :: rest =>
      if c = container.closing then skipOpen n outer .nextItem rest
      else if expected = .nextItem ∧ c ≠ ',' then .error .malformed
      else match skipKey container (if expected = .nextItem then rest else c :: rest) with
        | .error e => .error e
        | .ok rest => skipOpen n (container :: outer) .value rest

/-- Passes over one value. -/
def skipValue (text : Text) : Except Failure Text :=
  skipOpen (2 * text.length + 2) [] .value text

end SourceText.Json
