import FlagAudit.Yaml.Place

/-!
# Texts in YAML

A text in a YAML document is written between quotes, as a block of lines, or plainly. In all of them
lines can be folded: one line end between two lines becomes a space, and more of them lose one.
-/

namespace FlagAudit.Yaml

/-- The text does not follow the notation. -/
def malformed {α : Type} : Except Fault α := .error .malformed

/-- What a line end and the empty lines behind it become between two lines. -/
def folded (lineEnd : List Char) (emptyLines : List Char) : List Char :=
  if lineEnd != ['\n'] then lineEnd ++ emptyLines
  else if emptyLines.isEmpty then [' '] else emptyLines

/-! ### Between quotes -/

/-- Whether the character is a hexadecimal digit. -/
def isHexDigit (c : Char) : Bool :=
  c.isDigit || ('a' ≤ c && c ≤ 'f') || ('A' ≤ c && c ≤ 'F')

/-- The number that hexadecimal digits denote. -/
def hexNumber (ds : List Char) : Nat :=
  ds.foldl (fun n d => 16 * n + (if d.isDigit then d.toNat - 48
    else if d.isUpper then d.toNat - 55 else d.toNat - 87)) 0

/-- What one character behind a backslash stands for. -/
def escape? : Char → Option Char
  | '0' => some '\x00'
  | 'a' => some '\x07'
  | 'b' => some '\x08'
  | 't' | '\t' => some '\t'
  | 'n' => some '\n'
  | 'v' => some '\x0b'
  | 'f' => some '\x0c'
  | 'r' => some '\r'
  | 'e' => some '\x1b'
  | ' ' => some ' '
  | '"' => some '"'
  | '\\' => some '\\'
  | '/' => some '/'
  | 'N' => some '\u0085'
  | '_' => some '\u00a0'
  | 'L' => some '\u2028'
  | 'P' => some '\u2029'
  | _ => none

/-- How many hexadecimal digits a letter behind a backslash asks for. -/
def codeLength? : Char → Option Nat
  | 'x' => some 2
  | 'u' => some 4
  | 'U' => some 8
  | _ => none

/-- A character given by `n` hexadecimal digits. A code point that no character has is replaced. -/
def codeChar (n : Nat) (p : Place) : Except Fault (Char × Place) :=
  let ds := p.rest.take n
  let code := hexNumber ds
  if ds.length != n || !ds.all isHexDigit then malformed
  else if 0x7FFFFFFF < code then .error .tooLarge
  else if 0x10FFFF < code then .error .badValue
  else .ok (if code.isValidChar then Char.ofNat code else '\ufffd', p.forward n)

/-- The empty lines at the start of a line inside quotes. A mark between documents must not come. -/
def quotedBreaks : (fuel : Nat) → Place → Except Fault (List Char × Place)
  | 0, _ => malformed
  | fuel + 1, p =>
    if startsDocumentMark p.rest then malformed
    else
      let p := p.skipSpacesAndTabs
      if p.atBreak then do
        let (b, p) := p.takeBreak
        let (bs, p) ← quotedBreaks fuel p
        return (b ++ bs, p)
      else .ok ([], p)

/-- Blanks inside quotes, folded if a line ends. -/
def quotedBlanks (p : Place) : Except Fault (List Char × Place) :=
  let (blanks, p) := p.takeWhile fun c => c == ' ' || c == '\t'
  match p.peek with
  | none => malformed
  | some c =>
    if isBreak c then do
      let (b, p) := p.takeBreak
      let (bs, p) ← quotedBreaks (p.rest.length + 1) p
      return (folded b bs, p)
    else .ok (blanks, p)

/-- What a backslash between double quotes stands for; the backslash has been read. -/
def quotedEscape (p : Place) : Except Fault (List Char × Place) :=
  match p.peek with
  | none => malformed
  | some c =>
    match escape? c, codeLength? c with
    | some e, _ => .ok ([e], p.next)
    | none, some n => do
      let (e, p) ← codeChar n p.next
      return ([e], p)
    | none, none =>
      if isBreak c then
        let p := p.takeBreak.2
        quotedBreaks (p.rest.length + 1) p
      else malformed

/-- The text between quotes behind what has been read of it, in at most `fuel` steps. The opening
quote has been read, the closing one is read too. -/
def quotedFrom (double : Bool) :
    (fuel : Nat) → (seen : List Char) → Place → Except Fault (List Char × Place)
  | 0, _, _ => malformed
  | fuel + 1, seen, p =>
    match p.rest with
    | [] => malformed
    | c :: rest =>
      if double && c == '"' then .ok (seen, p.next)
      else if !double && c == '\'' then
        if rest.head? == some '\'' then quotedFrom double fuel (seen ++ ['\'']) (p.forward 2)
        else .ok (seen, p.next)
      else if isGap (some c) then do
        let (t, p) ← quotedBlanks p
        quotedFrom double fuel (seen ++ t) p
      else if double && c == '\\' then do
        let (t, p) ← quotedEscape p.next
        quotedFrom double fuel (seen ++ t) p
      else quotedFrom double fuel (seen ++ [c]) p.next

/-- A text between quotes. -/
def quoted (double : Bool) (p : Place) : Except Fault (List Char × Place) :=
  quotedFrom double (p.rest.length + 1) [] p.next

/-! ### In a block -/

/-- What happens to the line ends at the end of a block. -/
inductive Chomping where
  /-- The last one is kept. -/
  | clip
  /-- None is kept. -/
  | strip
  /-- All are kept. -/
  | keep
  deriving DecidableEq, Repr

/-- How the end of a block is marked to be treated. -/
def chomping? : Option Char → Option Chomping
  | some '+' => some .keep
  | some '-' => some .strip
  | _ => none

/-- A digit that marks the indentation of a block, which is not zero. -/
def increment? (c : Option Char) : Option Nat := do
  let c ← c
  if c.isDigit then return c.toNat - 48 else none

/-- The head of a block: how its end is treated, and how much it is indented if that is said. -/
def blockHead (p : Place) : Except Fault ((Chomping × Option Nat) × Place) := do
  let (chomping, increment, p) :=
    match chomping? p.peek, increment? p.peek with
    | some c, _ =>
      match increment? p.next.peek with
      | some n => (c, some n, p.forward 2)
      | none => (c, none, p.next)
    | none, some n =>
      match chomping? p.next.peek with
      | some c => (c, some n, p.forward 2)
      | none => (.clip, some n, p.next)
    | none, none => (.clip, none, p)
  if increment == some 0 || !isSpaceOrEnd p.peek then malformed
  let p := p.skipSpaces.skipComment
  if p.atLineEnd then return ((chomping, increment), p.takeBreak.2) else malformed

/-- Skips spaces as long as the column is below a limit. -/
def skipTo (column : Int) : (fuel : Nat) → Place → Place
  | 0, p => p
  | fuel + 1, p =>
    if (p.column : Int) < column && p.standsAt ' ' then skipTo column fuel p.next else p

/-- The empty lines at the start of a block, and the greatest column reached in them. -/
def leadingLines : (fuel : Nat) → (greatest : Nat) → Place → List Char × Nat × Place
  | 0, greatest, p => ([], greatest, p)
  | fuel + 1, greatest, p =>
    if p.standsAt ' ' then leadingLines fuel (max greatest p.next.column) p.next
    else if p.atBreak then
      let (b, p) := p.takeBreak
      let (bs, greatest, p) := leadingLines fuel greatest p
      (b ++ bs, greatest, p)
    else ([], greatest, p)

/-- The empty lines of a block that is indented to a column. -/
def emptyLines (column : Int) : (fuel : Nat) → Place → List Char × Place
  | 0, p => ([], p)
  | fuel + 1, p =>
    let p := skipTo column p.rest.length p
    if p.atBreak then
      let (b, p) := p.takeBreak
      let (bs, p) := emptyLines column fuel p
      (b ++ bs, p)
    else ([], p)

/-- Whether a character is a space or a tab. -/
def isSpaceOrTab (c : Option Char) : Bool := c == some ' ' || c == some '\t'

/-- The lines of a block behind some empty lines: the text, the end of the last line, and the empty
lines behind it. -/
def blockLines (fold : Bool) (column : Int) :
    (fuel : Nat) → (breaks : List Char) → Place → List Char × List Char × List Char × Place
  | 0, breaks, p => ([], [], breaks, p)
  | fuel + 1, breaks, p =>
    if (p.column : Int) != column || p.peek.isNone then ([], [], breaks, p)
    else
      let indented := isSpaceOrTab p.peek
      let (line, p) := p.takeWhile (!isBreak ·)
      let (lineEnd, p) := p.takeBreak
      let (after, p) := emptyLines column (p.rest.length + 1) p
      if (p.column : Int) == column && p.peek.isSome then
        let joint :=
          if fold && lineEnd == ['\n'] && !indented && !isSpaceOrTab p.peek then
            if after.isEmpty then [' '] else []
          else lineEnd
        let (text, last, tail, p) := blockLines fold column fuel after p
        (breaks ++ line ++ joint ++ text, last, tail, p)
      else (breaks ++ line, lineEnd, after, p)

/-- A block, which stands inside something that is indented to a column. -/
def block (fold : Bool) (indent : Int) (p : Place) : Except Fault (List Char × Place) := do
  let ((chomping, increment), p) ← blockHead p.next
  let least := max (indent + 1) 1
  let fuel := p.rest.length + 1
  let (column, breaks, p) :=
    match increment with
    | none =>
      let (breaks, greatest, p) := leadingLines fuel 0 p
      (max least (greatest : Int), breaks, p)
    | some n =>
      let column := least + (n : Int) - 1
      let (breaks, p) := emptyLines column fuel p
      (column, breaks, p)
  let (text, lineEnd, tail, p) := blockLines fold column fuel breaks p
  return (match chomping with
    | .strip => (text, p)
    | .clip => (text ++ lineEnd, p)
    | .keep => (text ++ lineEnd ++ tail, p))

/-! ### Plainly -/

/-- Whether a character has a meaning inside brackets. -/
def isFlowMark (c : Char) : Bool :=
  c == ',' || c == '[' || c == ']' || c == '\x7b' || c == '\x7d'

/-- The characters of a plain text up to a gap, to a colon that stands before a gap, and inside
brackets to a mark. -/
def plainWord (flow : Bool) : List Char → List Char
  | [] => []
  | c :: rest =>
    if isGap (some c) then []
    else if c == ':' && (isGap rest.head? || (flow && rest.head?.any isFlowMark)) then []
    else if flow && (isFlowMark c || c == '?') then []
    else c :: plainWord flow rest

/-- The empty lines between two lines of a plain text, up to a mark between documents. The flag says
whether there is one. -/
def plainBreaks : (fuel : Nat) → Place → List Char × Bool × Place
  | 0, p => ([], false, p)
  | fuel + 1, p =>
    if p.standsAt ' ' then plainBreaks fuel p.next
    else if p.atBreak then
      let (b, p) := p.takeBreak
      if startsDocumentMark p.rest then (b, true, p)
      else
        let (bs, marked, p) := plainBreaks fuel p
        (b ++ bs, marked, p)
    else ([], false, p)

/-- What is between two words of a plain text. -/
structure PlainGap where
  /-- What it becomes; nothing if the text ends. -/
  text : List Char
  /-- Whether a line ends in it. -/
  crossed : Bool
  /-- The place behind it. -/
  place : Place

/-- What is behind a word of a plain text. -/
def plainGap (p : Place) : PlainGap :=
  let (spaces, p) := p.takeWhile (· == ' ')
  if p.atBreak then
    let (b, p) := p.takeBreak
    if startsDocumentMark p.rest then ⟨[], true, p⟩
    else
      let (bs, marked, p) := plainBreaks (p.rest.length + 1) p
      if marked then ⟨[], true, p⟩ else ⟨folded b bs, true, p⟩
  else ⟨spaces, false, p⟩

/-- A plain text behind what has been read of it, and whether a line has ended behind its last word.
-/
def plainFrom (flow : Bool) (indent : Int) :
    (fuel : Nat) → (seen gap : List Char) → (crossed : Bool) → Place → (List Char × Bool) × Place
  | 0, seen, _, crossed, p => ((seen, crossed), p)
  | fuel + 1, seen, gap, crossed, p =>
    let word := if p.standsAt '#' then [] else plainWord flow p.rest
    if word.isEmpty then ((seen, crossed), p)
    else
      let g := plainGap (p.forward word.length)
      let seen := seen ++ gap ++ word
      if g.text.isEmpty || g.place.standsAt '#' || (!flow && (g.place.column : Int) < indent) then
        ((seen, g.crossed), g.place)
      else plainFrom flow indent fuel seen g.text g.crossed g.place

/-- A plain text inside something that is indented to a column. -/
def plain (flow : Bool) (indent : Int) (p : Place) : (List Char × Bool) × Place :=
  plainFrom flow (indent + 1) (p.rest.length + 1) [] [] false p

end FlagAudit.Yaml
