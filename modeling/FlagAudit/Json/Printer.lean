import FlagAudit.Failure
import FlagAudit.Json.Basic

/-!
# Writing JSON

`Json.render` writes a value in one of two layouts: indented by two spaces a level, with a blank
after each colon, or without any blanks. Texts are written as they are but for the quote, the
backslash and the characters below the space. A number of kind `float` has no digits left to write;
it is written as `0.0` or `1.0`. `Json.write` does the same, but it refuses a value with a number that
has too many digits.
-/

namespace FlagAudit.Json

/-- How a value is laid out. -/
inductive Layout where
  /-- Each item and each field on a line of its own. -/
  | indented
  /-- All on one line, without blanks. -/
  | compact
  deriving DecidableEq, Repr

/-- How one character is written inside a text. -/
def escape (c : Char) : List Char :=
  if c == '"' || c == '\\' then ['\\', c]
  else if c == '\n' then ['\\', 'n']
  else if c == '\r' then ['\\', 'r']
  else if c == '\t' then ['\\', 't']
  else if c == '\x08' then ['\\', 'b']
  else if c == '\x0c' then ['\\', 'f']
  else if c.toNat < 32 then '\\' :: 'u' :: Text.Quoted.hex 4 c.toNat
  else [c]

/-- A text between its quotes. -/
def renderText (s : String) : List Char := '"' :: s.toList.flatMap escape ++ ['"']

/-- The start of a new line inside `depth` brackets. -/
def Layout.newline (depth : Nat) : Layout → List Char
  | .indented => '\n' :: List.replicate (2 * depth) ' '
  | .compact => []

/-- What stands between a key and its value. -/
def Layout.colon : Layout → List Char
  | .indented => [':', ' ']
  | .compact => [':']

mutual

/-- The text of a value inside `depth` brackets. -/
def renderAt (layout : Layout) (depth : Nat) : Json → List Char
  | .null => "null".toList
  | .bool true => "true".toList
  | .bool false => "false".toList
  | .int n => (toString n).toList
  | .float true => "0.0".toList
  | .float false => "1.0".toList
  | .string s => renderText s
  | .array [] => ['[', ']']
  | .array (x :: xs) =>
    '[' :: layout.newline (depth + 1) ++ renderAt layout (depth + 1) x
      ++ renderItems layout (depth + 1) xs ++ layout.newline depth ++ [']']
  | .object [] => ['\x7b', '\x7d']
  | .object (f :: fs) =>
    '\x7b' :: layout.newline (depth + 1) ++ renderField layout (depth + 1) f
      ++ renderFields layout (depth + 1) fs ++ layout.newline depth ++ ['\x7d']

/-- The items behind the first one, each behind a comma. -/
def renderItems (layout : Layout) (depth : Nat) : List Json → List Char
  | [] => []
  | x :: xs => ',' :: layout.newline depth ++ renderAt layout depth x ++ renderItems layout depth xs

/-- A key with its value. -/
def renderField (layout : Layout) (depth : Nat) : String × Json → List Char
  | (key, value) => renderText key ++ layout.colon ++ renderAt layout depth value

/-- The fields behind the first one, each behind a comma. -/
def renderFields (layout : Layout) (depth : Nat) : List (String × Json) → List Char
  | [] => []
  | f :: fs => ',' :: layout.newline depth ++ renderField layout depth f
      ++ renderFields layout depth fs

end

/-- The text of a value, however many digits its numbers have. -/
def render (layout : Layout) (value : Json) : String := String.ofList (renderAt layout 0 value)

/-! ### Numbers that can be written -/

/-- A text with some whole numbers in it, unless one of them has too many digits. -/
def unlessTooLong (numbers : List Int) (text : String) : Except Cause String :=
  if numbers.all fun n => Text.digitCount n ≤ Text.digitLimit then .ok text else .error .unwritable

/-- Writes a value, unless one of its numbers has too many digits. -/
def write (layout : Layout) (value : Json) : Except Cause String :=
  unlessTooLong value.integers (render layout value)

end FlagAudit.Json
