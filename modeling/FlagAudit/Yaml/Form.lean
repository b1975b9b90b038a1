import FlagAudit.Yaml.Scalar

/-!
# What a plain text stands for

A plain text without a tag can stand for something other than a text: for a truth value, a number, a
date, or for no value. `tagOfForm` tells by its form.
-/

namespace FlagAudit.Yaml

/-- The words for truth values. -/
def truthWords : List String :=
  ["yes", "Yes", "YES", "no", "No", "NO", "true", "True", "TRUE", "false", "False", "FALSE", "on",
    "On", "ON", "off", "Off", "OFF"]

/-- The words for no value. -/
def nullWords : List String := ["~", "null", "Null", "NULL", ""]

/-- What is behind a sign, if there is one. -/
def dropSign (s : List Char) : List Char :=
  match s with
  | '+' :: rest => rest
  | '-' :: rest => rest
  | _ => s

/-- Whether the character is a digit or a low line. -/
def isDigitOrLine (c : Char) : Bool := c.isDigit || c == '_'

/-- Whether a text is empty or an exponent with its sign. -/
def isExponentOrNone (s : List Char) : Bool :=
  match s with
  | [] => true
  | e :: sign :: ds =>
    (e == 'e' || e == 'E') && (sign == '+' || sign == '-') && !ds.isEmpty && ds.all Char.isDigit
  | _ => false

/-- Whether a text starts with a colon and a number below sixty, once or more, and what is behind.
-/
def sexagesimal? : (fuel : Nat) → List Char → Option (List Char)
  | 0, _ => none
  | fuel + 1, s =>
    match s with
    | ':' :: a :: b :: rest =>
      if '0' ≤ a && a ≤ '5' && b.isDigit then
        some ((sexagesimal? fuel rest).getD rest)
      else if a.isDigit then some ((sexagesimal? fuel (b :: rest)).getD (b :: rest))
      else none
    | [':', a] => if a.isDigit then some [] else none
    | _ => none

/-- Whether a text has the form of a number with a point. -/
def isFloatForm (s : List Char) : Bool :=
  let u := dropSign s
  let whole := u.takeWhile isDigitOrLine
  let rest := u.dropWhile isDigitOrLine
  let startsWithDigit := u.head?.any Char.isDigit
  let simple := startsWithDigit && (match rest with
    | '.' :: r => isExponentOrNone (r.dropWhile isDigitOrLine)
    | _ => false)
  let bare := match s with
    | '.' :: d :: r => d.isDigit && isExponentOrNone (r.dropWhile isDigitOrLine)
    | _ => false
  let sixty := startsWithDigit && !whole.isEmpty && (match sexagesimal? (s.length + 1) rest with
    | some ('.' :: r) => r.all isDigitOrLine
    | _ => false)
  let infinite := [".inf", ".Inf", ".INF"].any fun w => u == w.toList
  let noNumber := [".nan", ".NaN", ".NAN"].any fun w => s == w.toList
  simple || bare || sixty || infinite || noNumber

/-- Whether a text has the form of a whole number. -/
def isIntForm (s : List Char) : Bool :=
  match dropSign s with
  | ['0'] => true
  | '0' :: 'b' :: r => !r.isEmpty && r.all fun c => c == '0' || c == '1' || c == '_'
  | '0' :: 'x' :: r => !r.isEmpty && r.all fun c => isHexDigit c || c == '_'
  | '0' :: r => r.all fun c => ('0' ≤ c && c ≤ '7') || c == '_'
  | d :: r =>
    d.isDigit && (match r.dropWhile isDigitOrLine with
      | [] => true
      | rest => sexagesimal? (s.length + 1) rest == some [])
  | [] => false

/-- Up to `n` digits at the start of a text, and at least `least`: they, and what is behind them. -/
def fewDigits (least n : Nat) (s : List Char) : Option (List Char × List Char) :=
  let ds := (s.take n).takeWhile Char.isDigit
  if least ≤ ds.length then some (ds, s.drop ds.length) else none

/-- The parts of a date with a time, as far as they are there. -/
structure Moment where
  /-- The year. -/
  year : Nat
  /-- The month. -/
  month : Nat
  /-- The day. -/
  day : Nat
  /-- Hour, minute and second. -/
  time : Option (Nat × Nat × Nat)
  /-- The distance to universal time, in hours and minutes. -/
  offset : Option (Nat × Nat)
  deriving Repr

/-- The number that decimal digits denote. -/
def decimalNumber (ds : List Char) : Nat := ds.foldl (fun n d => 10 * n + (d.toNat - 48)) 0

/-- What is behind a character. -/
def behindChar (c : Char) (s : List Char) : Option (List Char) :=
  match s with
  | x :: rest => if x == c then some rest else none
  | [] => none

/-- The distance to universal time at the end of a text. -/
def offset? (s : List Char) : Option (Option (Nat × Nat)) :=
  let blanks := s.takeWhile fun c => c == ' ' || c == '\t'
  match s.drop blanks.length with
  | [] => if blanks.isEmpty then some none else none
  | ['Z'] => some none
  | c :: rest =>
    if c == '+' || c == '-' then do
      let (hs, rest) ← fewDigits 1 2 rest
      match rest with
      | [] => return some (decimalNumber hs, 0)
      | rest =>
        let (ms, rest) ← fewDigits 2 2 (← behindChar ':' rest)
        if rest.isEmpty then return some (decimalNumber hs, decimalNumber ms) else none
    else none

/-- A time of day behind a date. -/
def timeOfDay? (s : List Char) : Option ((Nat × Nat × Nat) × Option (Nat × Nat)) := do
  let (hs, s) ← fewDigits 1 2 s
  let (ms, s) ← fewDigits 2 2 (← behindChar ':' s)
  let (ss, s) ← fewDigits 2 2 (← behindChar ':' s)
  let s := match s with
    | '.' :: rest => rest.dropWhile Char.isDigit
    | _ => s
  let o ← offset? s
  return ((decimalNumber hs, decimalNumber ms, decimalNumber ss), o)

/-- What is behind the mark or the blanks between a date and a time. -/
def behindSeparator? (s : List Char) : Option (List Char) :=
  match s with
  | c :: rest =>
    if c == 'T' || c == 't' then some rest
    else if c == ' ' || c == '\t' then some (rest.dropWhile fun c => c == ' ' || c == '\t')
    else none
  | [] => none

/-- The date that a text has the form of. -/
def moment? (s : List Char) : Option Moment := do
  let (ys, s) ← fewDigits 4 4 s
  let (ms, s) ← fewDigits 1 2 (← behindChar '-' s)
  let (ds, s) ← fewDigits 1 2 (← behindChar '-' s)
  let m : Moment := ⟨decimalNumber ys, decimalNumber ms, decimalNumber ds, none, none⟩
  match s with
  | [] => return m
  | s =>
    let (t, o) ← timeOfDay? (← behindSeparator? s)
    return { m with time := some t, offset := o }

/-- Whether a text has the form of a date. A day alone has two digits for the month and for itself.
-/
def isTimestampForm (s : List Char) : Bool :=
  match moment? s with
  | some m => m.time.isSome || s.length == 10
  | none => false

/-- A text without its last line feed, unless it is the whole text. It has no part in the form of the
text. -/
def beforeLineFeed (s : List Char) : List Char :=
  if 1 < s.length && s.getLast? == some '\n' then s.dropLast else s

/-- What a plain text stands for. -/
def tagOfForm (s : List Char) : Tag :=
  if truthWords.any fun w => s == w.toList then .bool
  else if isFloatForm s then .float
  else if isIntForm s then .int
  else if s == ['<', '<'] then .merge
  else if nullWords.any fun w => s == w.toList then .null
  else if isTimestampForm s then .timestamp
  else if s == ['='] then .value
  else if s == ['!'] || s == ['&'] || s == ['*'] then .unknown
  else .str

end FlagAudit.Yaml
