import FlagAudit.Regex.Draft

/-!
# Reading a pattern: escapes and sets

What a backslash makes of the character behind it, alone and between square brackets, and the sets
that square brackets enclose.
-/

namespace FlagAudit.Regex

/-- Whether the character is an octal digit. -/
def isOctal (c : Char) : Bool := '0' ≤ c && c ≤ '7'

/-- The value of a hexadecimal digit. -/
def hexValue (c : Char) : Nat :=
  if c.isDigit then c.toNat - 48 else if c.isUpper then c.toNat - 55 else c.toNat - 87

/-- Whether the character is a hexadecimal digit. -/
def isHex (c : Char) : Bool :=
  c.isDigit || ('a' ≤ c && c ≤ 'f') || ('A' ≤ c && c ≤ 'F')

/-- The number that digits denote to a base. -/
def ofBase (base : Nat) (ds : List Char) : Nat := ds.foldl (fun n d => base * n + hexValue d) 0

/-- The control character that a letter behind a backslash stands for; a backslash stands for
itself. -/
def controlCode? : Char → Option Nat
  | 'a' => some 7
  | 'b' => some 8
  | 'f' => some 12
  | 'n' => some 10
  | 'r' => some 13
  | 't' => some 9
  | 'v' => some 11
  | '\\' => some 92
  | _ => none

/-- The kind of character that a letter behind a backslash stands for. -/
def kind? : Char → Option SetItem
  | 'd' => some (.kind .digit false)
  | 'D' => some (.kind .digit true)
  | 's' => some (.kind .blank false)
  | 'S' => some (.kind .blank true)
  | 'w' => some (.kind .word false)
  | 'W' => some (.kind .word true)
  | _ => none

/-- The place that a letter behind a backslash stands for. -/
def place? (flags : Flags) : Char → Option Anchor
  | 'A' => some .textStart
  | 'Z' => some .textEnd
  | 'b' => some (.wordEdge false flags.ascii)
  | 'B' => some (.wordEdge true flags.ascii)
  | _ => none

/-- A code point given by exactly `n` hexadecimal digits. -/
def hexCode (n : Nat) : Reading Nat := do
  let ds ← takeWhile isHex n
  if ds.length ≠ n then fail "incomplete escape"
  else if 0x7FFFFFFF < ofBase 16 ds then throw .codeTooLarge
  else if 0x10FFFF < ofBase 16 ds then fail "bad escape"
  else return ofBase 16 ds

/-- A code point given by octal digits, of which the first has been read. -/
def octalCode (first : Char) : Reading Nat := do
  let n := ofBase 8 (first :: (← takeWhile isOctal 2))
  if 0o377 < n then fail "octal escape value outside of range 0-0o377" else return n

/-- The code point of a character that is called by its name between braces. -/
def calledCode : Reading Nat := do
  if !(← accept '\x7b') then fail "missing opening brace"
  let name ← takeUntil '\x7d'
  match (← get).characters.find? name with
  | some c => return c.toNat
  | none => fail "undefined character name"

/-- The code point that an escape stands for by its number, by a name or by itself. -/
def namedCode (c : Char) : Reading Nat :=
  match c with
  | 'x' => hexCode 2
  | 'u' => hexCode 4
  | 'U' => hexCode 8
  | 'N' => calledCode
  | _ => if c.isAlpha || c.isDigit then fail "bad escape" else return c.toNat

/-- An escape between square brackets. -/
def setEscape (c : Char) : Reading SetItem := do
  match controlCode? c, kind? c with
  | some n, _ => return .code n
  | none, some k => return k
  | none, none => if isOctal c then return .code (← octalCode c) else return .code (← namedCode c)

/-- One character of a set. -/
def setMember : Token → Reading SetItem
  | .escaped c => setEscape c
  | .plain c => return .code c.toNat

/-- The items of a set up to the closing bracket, in at most `fuel` steps. A bracket that closes
nothing and a hyphen before the closing bracket stand for themselves. -/
def setItems : (fuel : Nat) → (items : List SetItem) → Reading (List SetItem)
  | 0, _ => fail "unterminated character set"
  | fuel + 1, items => do
    let some t ← take | fail "unterminated character set"
    if t = .plain ']' && !items.isEmpty then return items
    let first ← setMember t
    if !(← accept '-') then setItems fuel (items ++ [first])
    else
      let some t ← take | fail "unterminated character set"
      if t = .plain ']' then return items ++ [first, .code '-'.toNat]
      match first, ← setMember t with
      | .code lo, .code hi =>
        if hi < lo then fail "bad character range" else setItems fuel (items ++ [.range lo hi])
      | _, _ => fail "bad character range"

/-- A set of characters, of which the opening bracket has been read. -/
def bracketSet (flags : Flags) : Reading Single := do
  let negated ← accept '^'
  return .oneOf (← setItems (← remaining) []) negated flags.letters

/-- One particular character. -/
def literal (flags : Flags) (n : Nat) : Regex := .single (.oneOf [.code n] false flags.letters)

/-- A code point by octal digits or a reference to a group, of which the first digit, not zero, has
been read. Three octal digits make a code point. -/
def numberEscape (flags : Flags) (first : Char) : Reading Regex := do
  match ← peek with
  | some (.plain second) =>
    if !second.isDigit then reference flags (ofBase 10 [first])
    else
      let _ ← take
      match ← peek with
      | some (.plain third) =>
        if isOctal first && isOctal second && isOctal third then
          let _ ← take
          let n := ofBase 8 [first, second, third]
          if 0o377 < n then fail "octal escape value outside of range 0-0o377"
          else return literal flags n
        else reference flags (ofBase 10 [first, second])
      | _ => reference flags (ofBase 10 [first, second])
  | _ => reference flags (ofBase 10 [first])

/-- An escape outside square brackets. -/
def escape (flags : Flags) (c : Char) : Reading Regex := do
  match place? flags c, kind? c, controlCode? c with
  | some a, _, _ => return .anchor a
  | none, some k, _ => return .single (.oneOf [k] false flags.letters)
  | none, none, some n => return literal flags n
  | none, none, none =>
    if c = '0' then return literal flags (← octalCode c)
    else if c.isDigit then numberEscape flags c
    else return literal flags (← namedCode c)

end FlagAudit.Regex
