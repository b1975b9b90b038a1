import FlagAudit.Calendar
import FlagAudit.Text.Number
import FlagAudit.Text.Scan
import FlagAudit.Toml.Document

/-!
# Reading TOML

The concrete syntax of TOML 1.0: keys, texts in four kinds of quotes, numbers, dates, lists, tables
in one line, and the statements of a document.
-/

namespace FlagAudit.Toml

/-- Why a text is not a TOML document. -/
inductive ReadError where
  /-- It does not follow the notation. -/
  | malformed
  /-- A whole number has more digits than a number may have. -/
  | tooManyDigits (count : Nat)
  deriving DecidableEq, Repr

/-- A step of reading: takes something from the start of a text. -/
abbrev Reading (α : Type) := List Char → Except ReadError (α × List Char)

/-- The text does not follow the notation. -/
def malformed {α : Type} : Except ReadError α := .error .malformed

/-- A value that has to be there. -/
def required {α : Type} : Option α → Except ReadError α
  | some a => .ok a
  | none => malformed

/-- Whether the character is a blank inside a line. -/
def isInlineBlank (c : Char) : Bool := c == ' ' || c == '\t'

/-- Skips blanks inside a line. -/
def skipBlanks (s : List Char) : List Char := s.dropWhile isInlineBlank

/-- Skips blanks and line feeds. -/
def skipBlankLines (s : List Char) : List Char := s.dropWhile fun c => isInlineBlank c || c == '\n'

/-- Whether the character is a control character other than a tab. -/
def isControl (c : Char) : Bool := (c.toNat < 32 && c != '\t') || c.toNat == 127

/-- Skips a comment, if there is one, up to the end of the line. -/
def skipComment (s : List Char) : Except ReadError (List Char) :=
  match s with
  | '#' :: rest =>
    if (rest.takeWhile (· != '\n')).any isControl then malformed
    else .ok (rest.dropWhile (· != '\n'))
  | _ => .ok s

/-- Skips blanks, line feeds and comments, in at most `fuel` steps. -/
def skipLines : (fuel : Nat) → List Char → Except ReadError (List Char)
  | 0, _ => malformed
  | fuel + 1, s => do
    let rest ← skipComment (skipBlankLines s)
    if rest.length == s.length then return rest else skipLines fuel rest

/-! ### Texts -/

/-- Whether the character is a hexadecimal digit. -/
def isHexDigit (c : Char) : Bool :=
  c.isDigit || ('a' ≤ c && c ≤ 'f') || ('A' ≤ c && c ≤ 'F')

/-- The value of a hexadecimal digit. -/
def hexDigitValue (c : Char) : Nat :=
  if c.isDigit then c.toNat - 48 else if c.isUpper then c.toNat - 55 else c.toNat - 87

/-- A character given by `n` hexadecimal digits. -/
def hexChar (n : Nat) : Reading Char := fun s =>
  let ds := s.take n
  let code := ds.foldl (fun m d => 16 * m + hexDigitValue d) 0
  if ds.length == n && ds.all isHexDigit && code.isValidChar then .ok (Char.ofNat code, s.drop n)
  else malformed

/-- What a backslash and the characters behind it stand for, of which the backslash has been read.
-/
def escaped : Reading Char
  | 'b' :: s => .ok ('\x08', s)
  | 't' :: s => .ok ('\t', s)
  | 'n' :: s => .ok ('\n', s)
  | 'f' :: s => .ok ('\x0c', s)
  | 'r' :: s => .ok ('\r', s)
  | '"' :: s => .ok ('"', s)
  | '\\' :: s => .ok ('\\', s)
  | 'u' :: s => hexChar 4 s
  | 'U' :: s => hexChar 8 s
  | _ => malformed

/-- What is behind a backslash that ends a line in a text of several lines: the line feed and all
blanks before and behind it are skipped. -/
def lineContinuation? (s : List Char) : Option (List Char) :=
  match s with
  | c :: _ =>
    if isInlineBlank c || c == '\n' then
      match skipBlanks s with
      | [] => some []
      | '\n' :: rest => some (skipBlankLines rest)
      | _ => none
    else none
  | [] => none

/-- Whether a backslash is followed by a blank or a line feed. -/
def startsContinuation (s : List Char) : Bool := s.head?.any fun c => isInlineBlank c || c == '\n'

/-- A text between double quotes, of which the opening ones have been read; `seen` is what has been
read of it, the last character first. -/
def basicText (lines : Bool) : (fuel : Nat) → (seen : List Char) → Reading (List Char)
  | 0, _, _ => malformed
  | fuel + 1, seen, s =>
    match s with
    | [] => malformed
    | '"' :: rest =>
      if !lines then .ok (seen.reverse, rest)
      else match rest with
        | '"' :: '"' :: rest => .ok (seen.reverse, rest)
        | _ => basicText lines fuel ('"' :: seen) rest
    | '\\' :: rest =>
      if lines && startsContinuation rest then do
        basicText lines fuel seen (← required (lineContinuation? rest))
      else do
        let (c, rest) ← escaped rest
        basicText lines fuel (c :: seen) rest
    | c :: rest =>
      if isControl c && !(lines && c == '\n') then malformed
      else basicText lines fuel (c :: seen) rest

/-- A text between single quotes, of which the opening ones have been read. Nothing is escaped in
it. -/
def literalText (lines : Bool) : (seen : List Char) → Reading (List Char)
  | _, [] => malformed
  | seen, '\'' :: rest =>
    if !lines then .ok (seen.reverse, rest)
    else match rest with
      | '\'' :: '\'' :: rest => .ok (seen.reverse, rest)
      | _ => literalText lines ('\'' :: seen) rest
  | seen, c :: rest =>
    if isControl c && !(lines && c == '\n') then malformed else literalText lines (c :: seen) rest

/-- Up to two more quotes that belong to a text of several lines because they come before the
closing ones. -/
def trailingQuotes (quote : Char) (text : List Char) (s : List Char) : List Char × List Char :=
  match s with
  | a :: b :: rest =>
    if a == quote then
      if b == quote then (text ++ [quote, quote], rest) else (text ++ [quote], b :: rest)
    else (text, s)
  | [a] => if a == quote then (text ++ [quote], []) else (text, s)
  | [] => (text, s)

/-- What is behind a line feed, if there is one. -/
def dropLineFeed (s : List Char) : List Char :=
  match s with
  | '\n' :: rest => rest
  | _ => s

/-- A text in one line, of which nothing has been read. -/
def lineText : Reading String := fun s =>
  match s with
  | '"' :: rest => do
    let (t, rest) ← basicText false (rest.length + 1) [] rest
    return (String.ofList t, rest)
  | '\'' :: rest => do
    let (t, rest) ← literalText false [] rest
    return (String.ofList t, rest)
  | _ => malformed

/-- A text in one line or in several, of which nothing has been read. -/
def anyText : Reading String := fun s =>
  match s with
  | '"' :: '"' :: '"' :: rest => do
    let (t, rest) ← basicText true (rest.length + 1) [] (dropLineFeed rest)
    let (t, rest) := trailingQuotes '"' t rest
    return (String.ofList t, rest)
  | '\'' :: '\'' :: '\'' :: rest => do
    let (t, rest) ← literalText true [] (dropLineFeed rest)
    let (t, rest) := trailingQuotes '\'' t rest
    return (String.ofList t, rest)
  | _ => lineText s

/-! ### Keys -/

/-- Whether a key without quotes can have the character. -/
def isBareKeyChar (c : Char) : Bool := c.isAlphanum || c == '-' || c == '_'

/-- One name of a key. -/
def keyPart : Reading String := fun s =>
  match s with
  | [] => malformed
  | c :: _ =>
    if isBareKeyChar c then
      .ok (String.ofList (s.takeWhile isBareKeyChar), s.dropWhile isBareKeyChar)
    else lineText s

/-- A key: names with dots between them, in at most `fuel` steps. Blanks behind it are skipped. -/
def key : (fuel : Nat) → Reading Key
  | 0, _ => malformed
  | fuel + 1, s => do
    let (part, rest) ← keyPart s
    match skipBlanks rest with
    | '.' :: rest => do
      let (parts, rest) ← key fuel (skipBlanks rest)
      return (part :: parts, rest)
    | rest => return ([part], rest)

/-! ### Numbers, dates and times -/

/-- Exactly `n` decimal digits. -/
def digits (n : Nat) (s : List Char) : Option (Nat × List Char) :=
  let ds := s.take n
  if ds.length == n && ds.all Char.isDigit then some (Text.digitsValue ds, s.drop n) else none

/-- A number of two digits within bounds. -/
def twoDigits (lo hi : Nat) (s : List Char) : Option (Nat × List Char) := do
  let (n, rest) ← digits 2 s
  if lo ≤ n && n ≤ hi then return (n, rest) else none

/-- What is behind a time of day. -/
def behindTime? (s : List Char) : Option (List Char) := do
  let (_, s) ← twoDigits 0 23 s
  let (_, s) ← twoDigits 0 59 (← Text.behind? [':'] s)
  let (_, s) ← twoDigits 0 59 (← Text.behind? [':'] s)
  match s with
  | '.' :: d :: rest => return if d.isDigit then rest.dropWhile Char.isDigit else s
  | _ => return s

/-- What is behind the distance to universal time, if it is there. -/
def behindOffset (s : List Char) : List Char :=
  match s with
  | [] => []
  | c :: rest =>
    if c == 'Z' || c == 'z' then rest
    else if c == '+' || c == '-' then
      (do
        let (_, r) ← twoDigits 0 23 rest
        let (_, r) ← twoDigits 0 59 (← Text.behind? [':'] r)
        return r).getD s
    else s

/-- A date at the start of a text, whether it is in the calendar, and what is behind it. -/
def date? (s : List Char) : Option (Bool × List Char) := do
  let (year, s) ← digits 4 s
  let (month, s) ← twoDigits 1 12 (← Text.behind? ['-'] s)
  let (day, s) ← twoDigits 1 31 (← Text.behind? ['-'] s)
  return (Calendar.isDate year month day, s)

/-- A date or a time at the start of a text, and what is behind it. -/
def moment? (s : List Char) : Option (Except ReadError (Moment × List Char)) :=
  match date? s with
  | some (valid, rest) =>
    if !valid then some malformed
    else some <| .ok <| match rest with
      | c :: r =>
        if c == 'T' || c == 't' || c == ' ' then
          match behindTime? r with
          | some r => (.dateTime, behindOffset r)
          | none => (.date, rest)
        else (.date, rest)
      | [] => (.date, rest)
  | none => (behindTime? s).map fun rest => .ok (.time, rest)

/-- Digits with single low lines between them: the digits, and what is behind them. -/
def digitGroups (isDigit : Char → Bool) : List Char → List Char × List Char
  | [] => ([], [])
  | '_' :: d :: rest =>
    if isDigit d then
      let (ds, rest) := digitGroups isDigit rest
      (d :: ds, rest)
    else ([], '_' :: d :: rest)
  | c :: rest =>
    if isDigit c then
      let (ds, rest) := digitGroups isDigit rest
      (c :: ds, rest)
    else ([], c :: rest)

/-- Like `digitGroups`, but the first character has to be a digit. -/
def digitGroups? (isDigit : Char → Bool) (s : List Char) : Option (List Char × List Char) :=
  if s.head?.any isDigit then some (digitGroups isDigit s) else none

/-- A whole number in hexadecimal, octal or binary digits. -/
def based? (s : List Char) : Option (Toml × List Char) :=
  match s with
  | '0' :: 'x' :: rest => number isHexDigit rest
  | '0' :: 'b' :: rest => number (fun c => c == '0' || c == '1') rest
  | '0' :: 'o' :: rest => number (fun c => '0' ≤ c && c ≤ '7') rest
  | _ => none
where
  /-- The digits of the number. -/
  number (isDigit : Char → Bool) (s : List Char) : Option (Toml × List Char) := do
    let (ds, rest) ← digitGroups? isDigit s
    return (.whole (ds.all (· == '0')), rest)

/-- The digits of the whole part of a decimal number. A zero stands alone. -/
def wholePart? (s : List Char) : Option (List Char × List Char) :=
  match s with
  | '0' :: rest => some (['0'], rest)
  | _ => digitGroups? Char.isDigit s

/-- The digits behind a point, if there are any. -/
def fraction? (s : List Char) : Option (List Char × List Char) :=
  match s with
  | '.' :: rest => digitGroups? Char.isDigit rest
  | _ => none

/-- A number of digits, times a sign. -/
def signedDigits? (sign : Int) (s : List Char) : Option (Int × List Char) :=
  (digitGroups? Char.isDigit s).map fun (ds, rest) => (sign * Text.digitsValue ds, rest)

/-- An exponent, if there is one. -/
def exponent? (s : List Char) : Option (Int × List Char) :=
  match s with
  | c :: rest =>
    if c == 'e' || c == 'E' then
      match rest with
      | '-' :: rest => signedDigits? (-1) rest
      | '+' :: rest => signedDigits? 1 rest
      | rest => signedDigits? 1 rest
    else none
  | [] => none

/-- What is behind a sign, if there is one. -/
def dropSign (s : List Char) : List Char :=
  match s with
  | '+' :: rest => rest
  | '-' :: rest => rest
  | _ => s

/-- A decimal number. -/
def decimal? (s : List Char) : Option (Except ReadError (Toml × List Char)) := do
  let (ds, s) ← wholePart? (dropSign s)
  match fraction? s, exponent? s with
  | none, none =>
    if Text.digitLimit < ds.length then return .error (.tooManyDigits ds.length)
    else return .ok (.whole (ds.all (· == '0')), s)
  | some (fraction, s), _ =>
    let (exponent, s) := (exponent? s).getD (0, s)
    return .ok (.real (Text.roundsToZero (Text.digitsValue (ds ++ fraction))
      (exponent - fraction.length)), s)
  | none, some (exponent, s) =>
    return .ok (.real (Text.roundsToZero (Text.digitsValue ds) exponent), s)

/-- A number that is not finite. -/
def notFinite? (s : List Char) : Option (Toml × List Char) :=
  (Text.oneOf? ["inf".toList, "nan".toList] (dropSign s)).map fun (_, rest) => (.real false, rest)

/-! ### Values -/

mutual

/-- A value. -/
def value : (fuel : Nat) → Reading Toml
  | 0, _ => malformed
  | fuel + 1, s =>
    match s with
    | [] => malformed
    | c :: rest =>
      if c == '"' || c == '\'' then do
        let (t, rest) ← anyText s
        return (.text t, rest)
      else if let some rest := Text.behind? "true".toList s then .ok (.flag true, rest)
      else if let some rest := Text.behind? "false".toList s then .ok (.flag false, rest)
      else if c == '[' then do
        let rest ← skipLines (rest.length + 1) rest
        let (items, rest) ← listItems fuel [] rest
        return (.list items, rest)
      else if c == '\x7b' then do
        match skipBlanks rest with
        | '\x7d' :: rest => return (.table [], rest)
        | rest =>
          let (fields, rest) ← tableFields fuel [] [] rest
          return (.table fields, rest)
      else match moment? s with
        | some m => do
          let (m, rest) ← m
          return (.moment m, rest)
        | none =>
          match based? s, decimal? s, notFinite? s with
          | some r, _, _ => .ok r
          | none, some r, _ => r
          | none, none, some r => .ok r
          | none, none, none => malformed

/-- The items of a list up to the closing bracket; `seen` are those before them, the last one first.
-/
def listItems : (fuel : Nat) → (seen : List Toml) → Reading (List Toml)
  | 0, _, _ => malformed
  | fuel + 1, seen, s =>
    match s with
    | ']' :: rest => .ok (seen.reverse, rest)
    | _ => do
      let (item, rest) ← value fuel s
      let rest ← skipLines (rest.length + 1) rest
      match rest with
      | ']' :: rest => return ((item :: seen).reverse, rest)
      | ',' :: rest =>
        let rest ← skipLines (rest.length + 1) rest
        listItems fuel (item :: seen) rest
      | _ => malformed

/-- The fields of a table in one line up to the closing brace, with those before them. -/
def tableFields : (fuel : Nat) → Fields → Marks → Reading Fields
  | 0, _, _, _ => malformed
  | fuel + 1, fields, marks, s => do
    let ((k, v), rest) ← assignment fuel s
    let (fields, marks) ← required (assignInline fields marks k v)
    match skipBlanks rest with
    | '\x7d' :: rest => return (fields, rest)
    | ',' :: rest => tableFields fuel fields marks (skipBlanks rest)
    | _ => malformed

/-- A key and its value. -/
def assignment : (fuel : Nat) → Reading (Key × Toml)
  | 0, _ => malformed
  | fuel + 1, s => do
    let (k, rest) ← key (s.length + 1) s
    match rest with
    | '=' :: rest =>
      let (v, rest) ← value fuel (skipBlanks rest)
      return ((k, v), rest)
    | _ => malformed

end

/-! ### Documents -/

/-- A header behind its brackets, up to the closing ones. -/
def header (closing : List Char) : Reading Key := fun s => do
  let s := skipBlanks s
  let (k, rest) ← key (s.length + 1) s
  match Text.behind? closing rest with
  | some rest => .ok (k, rest)
  | none => malformed

/-- Whether a key can start with the character. -/
def isKeyStart (c : Char) : Bool := isBareKeyChar c || c == '"' || c == '\''

/-- A statement at the start of a text that is neither blank nor a line feed: what it makes of the
document, and what is behind it. A comment is no statement, and takes nothing. -/
def statement (d : Draft) (s : List Char) : Except ReadError (Draft × List Char) :=
  match s with
  | '[' :: '[' :: rest => do
    let (k, rest) ← header [']', ']'] rest
    return (← required (d.settle.addTable k), rest)
  | '[' :: rest => do
    let (k, rest) ← header [']'] rest
    return (← required (d.settle.openTable k), rest)
  | '#' :: _ => .ok (d, s)
  | c :: _ =>
    if isKeyStart c then do
      let ((k, v), rest) ← assignment (2 * s.length + 2) s
      return (← required (d.assign k v), rest)
    else malformed
  | [] => .ok (d, [])

/-- The statements of a document, in at most `fuel` steps. -/
def statements : (fuel : Nat) → Draft → List Char → Except ReadError Draft
  | 0, _, _ => malformed
  | fuel + 1, d, s =>
    match skipBlanks s with
    | [] => .ok d
    | '\n' :: rest => statements fuel d rest
    | s => do
      let (d, rest) ← statement d s
      match ← skipComment (skipBlanks rest) with
      | [] => return d
      | '\n' :: rest => statements fuel d rest
      | _ => malformed

/-- The text with each carriage return that stands before a line feed left out. -/
def joinLineEnds : List Char → List Char
  | '\r' :: '\n' :: rest => '\n' :: joinLineEnds rest
  | c :: rest => c :: joinLineEnds rest
  | [] => []

/-- The fields of the document that a text denotes. -/
def read (s : List Char) : Except ReadError Fields := do
  let s := joinLineEnds s
  return (← statements (s.length + 1) {} s).fields

end FlagAudit.Toml
