import FlagAudit.Yaml.Basic

/-!
# A place in a YAML text

Lines and columns have a meaning in YAML, so a place in a text knows them. A byte order mark takes
no column.
-/

namespace FlagAudit.Yaml

/-- A place in a text. -/
structure Place where
  /-- The characters from here on. -/
  rest : List Char
  /-- How many characters are before. -/
  index : Nat
  /-- How many lines are before. -/
  line : Nat
  /-- How many columns of the line are before. -/
  column : Nat

/-- The start of a text. -/
def Place.start (s : List Char) : Place := ⟨s, 0, 0, 0⟩

namespace Place

/-- The place one character further. -/
def next (p : Place) : Place :=
  match p.rest with
  | [] => p
  | c :: rest =>
    if isBreak c then ⟨rest, p.index + 1, p.line + 1, 0⟩
    else if c == '\ufeff' then ⟨rest, p.index + 1, p.line, p.column⟩
    else ⟨rest, p.index + 1, p.line, p.column + 1⟩

/-- The place some characters further. -/
def forward : (n : Nat) → Place → Place
  | 0, p => p
  | n + 1, p => forward n p.next

/-- The next character. -/
def peek (p : Place) : Option Char := p.rest.head?

/-- The character some characters further. -/
def peekAt (p : Place) (n : Nat) : Option Char := p.rest[n]?

/-- Whether the next character is the given one. -/
def standsAt (p : Place) (c : Char) : Bool := p.peek == some c

/-- Takes characters as long as a condition holds. -/
def takeWhile (f : Char → Bool) (p : Place) : List Char × Place :=
  let taken := p.rest.takeWhile f
  (taken, p.forward taken.length)

/-- Skips spaces. -/
def skipSpaces (p : Place) : Place := (p.takeWhile (· == ' ')).2

/-- Skips spaces and tabs. -/
def skipSpacesAndTabs (p : Place) : Place := (p.takeWhile fun c => c == ' ' || c == '\t').2

/-- Skips the rest of the line. -/
def skipLine (p : Place) : Place := (p.takeWhile (!isBreak ·)).2

/-- Skips a comment, if there is one. -/
def skipComment (p : Place) : Place := if p.standsAt '#' then p.skipLine else p

/-- Whether a line ends here. -/
def atBreak (p : Place) : Bool := p.peek.any isBreak

/-- Whether a line or the text ends here. -/
def atLineEnd (p : Place) : Bool := p.peek.all isBreak

/-- Takes the end of a line, if there is one. Two kinds of line ends are kept, all others become
line feeds. -/
def takeBreak (p : Place) : List Char × Place :=
  match p.rest with
  | c :: _ =>
    if c == '\u2028' || c == '\u2029' then ([c], p.next)
    else if isBreak c then (['\n'], p.next)
    else ([], p)
  | [] => ([], p)

end Place

/-- Whether a character is a space, a tab or the end of a line, or there is none. -/
def isGap (c : Option Char) : Bool := c.all fun c => c == ' ' || c == '\t' || isBreak c

/-- Whether a character is a space or the end of a line, or there is none. -/
def isSpaceOrEnd (c : Option Char) : Bool := c.all fun c => c == ' ' || isBreak c

/-- Whether three of a character stand at the start of a text with a gap behind them. -/
def startsMark (c : Char) (s : List Char) : Bool :=
  match s with
  | x :: y :: z :: rest => x == c && y == c && z == c && isGap rest.head?
  | _ => false

/-- Whether a text starts with a mark between documents. -/
def startsDocumentMark (s : List Char) : Bool := startsMark '-' s || startsMark '.' s

end FlagAudit.Yaml
