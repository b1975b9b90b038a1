import FlagAudit.Regex.Width

/-!
# Reading a pattern: the state

A pattern is read token by token, a backslash together with the character behind it, always with the
next token in view. Besides the tokens, reading carries what has been learnt about the groups: their
names, their widths, and which of them are still open. Which characters can be called by name is given
from outside and stays as it is.
-/

namespace FlagAudit.Regex

/-- Why a pattern cannot be used. -/
inductive Fault where
  /-- The pattern is not well formed. -/
  | malformed (reason : String)
  /-- A repetition count is out of range. -/
  | repetitionTooLarge
  /-- The pattern asks for all characters and for the first 128 only. -/
  | flagConflict
  /-- The number of a character does not even fit into four bytes with a sign. -/
  | codeTooLarge
  /-- A repetition count has more digits than a number may have. -/
  | tooManyDigits (count : Nat)
  deriving DecidableEq, Repr

/-- A unit of a pattern. -/
inductive Token where
  /-- A character that stands for itself or has a meaning of its own. -/
  | plain (c : Char)
  /-- A character behind a backslash. -/
  | escaped (c : Char)
  deriving DecidableEq, Repr

/-- The characters of a token. -/
def Token.chars : Token → List Char
  | .plain c => [c]
  | .escaped c => ['\\', c]

/-- What is left of a pattern: the next token and the characters behind it. -/
structure Input where
  /-- The next token. -/
  next : Option Token
  /-- The characters behind it. -/
  rest : List Char

/-- Characters as input. A backslash at the very end escapes nothing. -/
def Input.ofChars : List Char → Except Fault Input
  | [] => .ok ⟨none, []⟩
  | ['\\'] => .error (.malformed "bad escape (end of pattern)")
  | '\\' :: c :: rest => .ok ⟨some (.escaped c), rest⟩
  | c :: rest => .ok ⟨some (.plain c), rest⟩

/-- The settings of a pattern or of a part of it. -/
structure Flags where
  /-- Capitals and small letters are the same. -/
  ignoreCase : Bool := false
  /-- The marks `^` and `$` stand at every line. -/
  multiline : Bool := false
  /-- The dot accepts a line feed too. -/
  dotAll : Bool := false
  /-- Blanks and comments between the parts are skipped. -/
  verbose : Bool := false
  /-- Only the first 128 characters count as letters, digits and blanks. -/
  ascii : Bool := false
  /-- All characters count, said explicitly. -/
  unicode : Bool := false
  /-- The pattern is a template, which has no repetitions. -/
  template : Bool := false
  deriving DecidableEq, Repr

/-- How letters are read under some flags. -/
def Flags.letters (f : Flags) : Letters := ⟨f.ignoreCase, f.ascii⟩

/-- The names by which a pattern can call characters. -/
class CharNames where
  /-- The character that goes by a name. -/
  find? : List Char → Option Char

/-- No character goes by any name. -/
@[reducible] def CharNames.none : CharNames := ⟨fun _ => .none⟩

/-- What has been learnt so far. -/
structure Draft where
  /-- The characters that can be called by name. -/
  characters : CharNames
  /-- What is left to read. -/
  input : Input
  /-- The settings of the whole pattern. -/
  flags : Flags
  /-- The groups that have a name. -/
  names : List (List Char × Nat)
  /-- The widths of the groups in the order of their numbers; an open group has none yet. -/
  widths : List (Option Width)
  /-- How many groups there were where the outermost open look back began. -/
  lookbackFrom : Option Nat
  /-- The greatest group number that a condition asks about. -/
  askedGroup : Nat
  /-- Some look back has no fixed width. -/
  unevenLookback : Bool
  /-- There is a repetition. -/
  repeats : Bool

/-- A step of reading. -/
abbrev Reading := StateT Draft (Except Fault)

/-- The pattern is not well formed. -/
def fail {α : Type} (reason : String) : Reading α := throw (.malformed reason)

/-- The next token, left in place. -/
def peek : Reading (Option Token) := return (← get).input.next

/-- The next token, taken. -/
def take : Reading (Option Token) := do
  let d ← get
  let input ← Input.ofChars d.input.rest
  set { d with input }
  return d.input.next

/-- Takes the next token if it is the given character. -/
def accept (c : Char) : Reading Bool := do
  if (← peek) = some (.plain c) then
    let _ ← take
    return true
  else return false

/-- Takes the next tokens, at most `n`, as long as they are plain characters of some sort. -/
def takeWhile (sort : Char → Bool) : (n : Nat) → Reading (List Char)
  | 0 => return []
  | n + 1 => do
    match ← peek with
    | some (.plain c) =>
      if sort c then
        let _ ← take
        return c :: (← takeWhile sort n)
      else return []
    | _ => return []

/-- How many characters are left at most. -/
def remaining : Reading Nat := return (← get).input.rest.length + 2

/-- Takes the tokens up to a terminator, which is taken too, in at most `fuel` steps. -/
def takeUntilFrom (terminator : Char) : (fuel : Nat) → Reading (List Char)
  | 0 => fail "unterminated name"
  | fuel + 1 => do
    match ← take with
    | none => fail "unterminated name"
    | some t =>
      if t = .plain terminator then return []
      else return t.chars ++ (← takeUntilFrom terminator fuel)

/-- Takes a text that is not empty, up to a terminator, which is taken too. -/
def takeUntil (terminator : Char) : Reading (List Char) := do
  let s ← takeUntilFrom terminator (← remaining)
  if s.isEmpty then fail "missing name" else return s

/-- Whether the group has been opened and closed. -/
def Draft.isClosed (d : Draft) (number : Nat) : Bool :=
  match d.widths[number - 1]? with
  | some (some _) => 0 < number
  | _ => false

/-- The width of a closed group. -/
def Draft.widthOf (d : Draft) (number : Nat) : Width :=
  ((d.widths[number - 1]?).join).getD (.exactly 0)

/-- Inside a look back, only groups that were closed before it began can be asked about. -/
def checkLookback (number : Nat) : Reading Unit := do
  let d ← get
  match d.lookbackFrom with
  | none => return ()
  | some count =>
    if !d.isClosed number then fail "cannot refer to an open group"
    else if count < number then fail "cannot refer to group defined in the same look back"
    else return ()

/-- A reference to the text of a group, which has to be closed. -/
def reference (flags : Flags) (number : Nat) : Reading Regex := do
  let d ← get
  if d.widths.length < number then fail "invalid group reference"
  else if !d.isClosed number then fail "cannot refer to an open group"
  else
    checkLookback number
    return .backref number flags.letters

/-- Opens a group, perhaps with a name that is not taken yet, and gives its number. -/
def openGroup (name : Option (List Char)) : Reading Nat := do
  let d ← get
  let number := d.widths.length + 1
  let names ← match name with
    | none => pure d.names
    | some s =>
      if (d.names.lookup s).isSome then fail "redefinition of group name"
      else pure ((s, number) :: d.names)
  set { d with names, widths := d.widths ++ [none] }
  return number

/-- Closes a group. -/
def closeGroup (number : Nat) (body : Regex) : Reading Unit :=
  modify fun d => { d with widths := d.widths.set (number - 1) (some (width d.widthOf body)) }

end FlagAudit.Regex
