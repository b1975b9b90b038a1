import FlagAudit.Json.Basic
import FlagAudit.Text.Number

/-!
# Reading JSON

`Json.read` reads a document: one value, with blanks around it. Beyond the standard it accepts the
names `NaN`, `Infinity` and `-Infinity` for numbers. Control characters inside a text must be
escaped. A whole number with too many digits is refused with an error of its own; how many digits it
may have is an argument of the reader.

The reader is a set of functions from the rest of the text to a value and a shorter rest; the fuel
that bounds their recursion is computed from the length of the document.
-/

namespace FlagAudit.Json

/-- Why a document cannot be read. -/
inductive ReadError where
  /-- The text is not a JSON document. -/
  | malformed
  /-- A whole number has more digits than a number may have. -/
  | tooManyDigits (count : Nat)
  deriving DecidableEq, Repr

/-- Whether a character may stand between the parts of a document. -/
def isSpace (c : Char) : Bool := c == ' ' || c == '\t' || c == '\n' || c == '\r'

/-- The text without the blanks at its start. -/
def skipSpace (s : List Char) : List Char := s.dropWhile isSpace

/-- The value of a hexadecimal digit. -/
def hexValue? (c : Char) : Option Nat :=
  if c.isDigit then some (c.toNat - 48)
  else if 'a' ≤ c ∧ c ≤ 'f' then some (c.toNat - 87)
  else if 'A' ≤ c ∧ c ≤ 'F' then some (c.toNat - 55)
  else none

/-- The code unit that four hexadecimal digits denote. -/
def hexUnit? (a b c d : Char) : Option Nat := do
  let a ← hexValue? a
  let b ← hexValue? b
  let c ← hexValue? c
  let d ← hexValue? d
  return ((a * 16 + b) * 16 + c) * 16 + d

/-- The character for a code unit that stands alone: half of a pair is none. -/
def charOfUnit (n : Nat) : Char :=
  if 0xD800 ≤ n ∧ n < 0xE000 then '\ufffd' else Char.ofNat n

/-- The character that a short escape stands for. -/
def shortEscape? : Char → Option Char
  | '"' => some '"'
  | '\\' => some '\\'
  | '/' => some '/'
  | 'b' => some '\x08'
  | 'f' => some '\x0c'
  | 'n' => some '\n'
  | 'r' => some '\r'
  | 't' => some '\t'
  | _ => none

/-- The characters of a text up to its closing quote, and what follows the quote. -/
def readText : List Char → Option (List Char × List Char)
  | [] => none
  | '"' :: rest => some ([], rest)
  | '\\' :: 'u' :: a :: b :: c :: d :: '\\' :: 'u' :: e :: f :: g :: h :: rest => do
    let high ← hexUnit? a b c d
    let low? := hexUnit? e f g h
    match low? with
    | some low =>
      if 0xD800 ≤ high ∧ high < 0xDC00 ∧ 0xDC00 ≤ low ∧ low < 0xE000 then
        let (s, rest) ← readText rest
        return (Char.ofNat (0x10000 + (high - 0xD800) * 0x400 + (low - 0xDC00)) :: s, rest)
      else
        let (s, rest) ← readText ('\\' :: 'u' :: e :: f :: g :: h :: rest)
        return (charOfUnit high :: s, rest)
    | none => none
  | '\\' :: 'u' :: a :: b :: c :: d :: rest => do
    let n ← hexUnit? a b c d
    let (s, rest) ← readText rest
    return (charOfUnit n :: s, rest)
  | '\\' :: e :: rest => do
    let c ← shortEscape? e
    let (s, rest) ← readText rest
    return (c :: s, rest)
  | c :: rest =>
    if c.toNat < 32 then none
    else do
      let (s, rest) ← readText rest
      return (c :: s, rest)
termination_by s => s.length

/-- The digits behind a decimal point, if there is a point with digits behind it. -/
def readFraction (s : List Char) : Option (List Char × List Char) :=
  match s with
  | '.' :: rest =>
    match Text.spanDigits rest with
    | ([], _) => none
    | (ds, rest) => some (ds, rest)
  | _ => none

/-- The power of ten that an exponent denotes, if there is an exponent. -/
def readExponent (s : List Char) : Option (Int × List Char) :=
  match s with
  | e :: rest =>
    if e == 'e' || e == 'E' then
      let (negative, rest) := match rest with
        | '-' :: r => (true, r)
        | '+' :: r => (false, r)
        | r => (false, r)
      match Text.spanDigits rest with
      | ([], _) => none
      | (ds, rest) =>
        let n : Int := Text.digitsValue ds
        some (if negative then -n else n, rest)
    else none
  | [] => none

/-- A number without its sign. `limit` is the most digits that a whole number may have. -/
def readMagnitude (limit : Nat) (negative : Bool) (s : List Char) :
    Except ReadError (Json × List Char) := do
  let (whole, rest) ← match s with
    | '0' :: rest => pure (['0'], rest)
    | s =>
      match Text.spanDigits s with
      | ([], _) => throw .malformed
      | (ds, rest) => pure (ds, rest)
  let fraction? := readFraction rest
  let (fraction, rest) := fraction?.getD ([], rest)
  match fraction?, readExponent rest with
  | none, none =>
    if limit < whole.length then throw (.tooManyDigits whole.length)
    let n : Int := Text.digitsValue whole
    return (.int (if negative then -n else n), rest)
  | _, exponent? =>
    let (exponent, rest) := exponent?.getD (0, rest)
    let mantissa := Text.digitsValue (whole ++ fraction)
    let zero := Text.roundsToZero mantissa (exponent - fraction.length)
    return (.float zero, rest)

/-- What is behind `word`, if the text starts with it. -/
def expect? (word : String) (s : List Char) : Option (List Char) :=
  if word.toList.isPrefixOf s then some (s.drop word.length) else none

mutual

/-- A value, without blanks before it. -/
def readValue (limit : Nat) : (fuel : Nat) → List Char → Except ReadError (Json × List Char)
  | 0, _ => throw .malformed
  | fuel + 1, s =>
    match s with
    | '"' :: rest =>
      match readText rest with
      | some (t, rest) => return (.string (String.ofList t), rest)
      | none => throw .malformed
    | '[' :: rest =>
      match skipSpace rest with
      | ']' :: rest => return (.array [], rest)
      | rest => do
        let (items, rest) ← readItems limit fuel rest
        return (.array items, rest)
    | '\x7b' :: rest =>
      match skipSpace rest with
      | '\x7d' :: rest => return (.object [], rest)
      | rest => do
        let (fields, rest) ← readFields limit fuel rest
        return (.object fields, rest)
    | s =>
      match expect? "null" s with
      | some rest => return (.null, rest)
      | none =>
      match expect? "true" s with
      | some rest => return (.bool true, rest)
      | none =>
      match expect? "false" s with
      | some rest => return (.bool false, rest)
      | none =>
      match expect? "NaN" s with
      | some rest => return (.float false, rest)
      | none =>
      match expect? "Infinity" s with
      | some rest => return (.float false, rest)
      | none =>
      match expect? "-Infinity" s with
      | some rest => return (.float false, rest)
      | none =>
      match s with
      | '-' :: rest => readMagnitude limit true rest
      | s => readMagnitude limit false s

/-- The items of a list that is not empty, up to and with the closing bracket. -/
def readItems (limit : Nat) : (fuel : Nat) → List Char → Except ReadError (List Json × List Char)
  | 0, _ => throw .malformed
  | fuel + 1, s => do
    let (x, rest) ← readValue limit fuel s
    match skipSpace rest with
    | ']' :: rest => return ([x], rest)
    | ',' :: rest =>
      let (xs, rest) ← readItems limit fuel (skipSpace rest)
      return (x :: xs, rest)
    | _ => throw .malformed

/-- The fields of an object that is not empty, up to and with the closing brace. -/
def readFields (limit : Nat) :
    (fuel : Nat) → List Char → Except ReadError (List (String × Json) × List Char)
  | 0, _ => throw .malformed
  | fuel + 1, s =>
    match s with
    | '"' :: rest =>
      match readText rest with
      | none => throw .malformed
      | some (key, rest) =>
        match skipSpace rest with
        | ':' :: rest => do
          let (x, rest) ← readValue limit fuel (skipSpace rest)
          match skipSpace rest with
          | '\x7d' :: rest => return ([(String.ofList key, x)], rest)
          | ',' :: rest =>
            let (xs, rest) ← readFields limit fuel (skipSpace rest)
            return ((String.ofList key, x) :: xs, rest)
          | _ => throw .malformed
        | _ => throw .malformed
    | _ => throw .malformed

end

/-- The value that a document holds, if whole numbers may have `limit` digits. Each value and each item
uses up a character, so twice the length of the document bounds the depth of the recursion. -/
def readUpTo (limit : Nat) (document : List Char) : Except ReadError Json := do
  let (x, rest) ← readValue limit (2 * document.length + 2) (skipSpace document)
  match skipSpace rest with
  | [] => return x
  | _ => throw .malformed

/-- The value that a document holds. -/
def read (document : List Char) : Except ReadError Json := readUpTo Text.digitLimit document

end FlagAudit.Json
