import FlagAudit.Regex.Escape
import FlagAudit.Text.Identifier

/-!
# Reading a pattern

The concrete syntax of regular expressions: alternatives, repetitions, groups of all sorts, and
settings. A pattern either becomes a `Pattern` or has a `Fault`, which is the first one met from
left to right; what can only be seen of the whole pattern is looked at afterwards.
-/

namespace FlagAudit.Regex

/-- What a part of a sequence is, as far as repeating it is concerned. -/
inductive PartKind where
  /-- A place, which cannot be repeated. -/
  | place
  /-- A repetition, which cannot be repeated again. -/
  | repetition
  /-- Anything else. -/
  | other
  deriving DecidableEq, Repr

/-- A part of a sequence. -/
structure Part where
  /-- What it is. -/
  kind : PartKind
  /-- What it stands for. -/
  body : Regex

/-- The kind of an expression that is not a repetition. -/
def Part.of (r : Regex) : Part :=
  match r with
  | .anchor _ => ⟨.place, r⟩
  | _ => ⟨.other, r⟩

/-- A sequence of parts, of which the last is given first. -/
def sequenceOf (parts : List Part) : Regex := .concatAll (parts.reverse.map (·.body))

/-! ### Repetitions -/

/-- Repetition counts from here on are out of range. -/
def countLimit : Nat := 4294967295

/-- A repetition count in decimal digits, if it is there. -/
def count (ds : List Char) : Except Fault (Option Nat) :=
  if ds.isEmpty then .ok none
  else if Text.digitLimit < ds.length then .error (.tooManyDigits ds.length)
  else if countLimit ≤ ofBase 10 ds then .error .repetitionTooLarge
  else .ok (some (ofBase 10 ds))

/-- The bounds of a repetition between braces, of which the opening one has been read. If what
follows is not a pair of bounds, nothing is taken. -/
def bounds : Reading (Option (Nat × Option Nat)) := do
  let start ← get
  if start.input.next = some (.plain '\x7d') then return none
  let n ← remaining
  let lo ← takeWhile Char.isDigit n
  let hi ← if ← accept ',' then takeWhile Char.isDigit n else pure lo
  if !(← accept '\x7d') then
    set start
    return none
  let min ← liftExcept (count lo)
  let max ← liftExcept (count hi)
  match min, max with
  | some m, some n =>
    if n < m then fail "min repeat greater than max repeat" else return some (m, n)
  | _, _ => return some (min.getD 0, max)
where
  /-- A result as a step of reading. -/
  liftExcept {α : Type} : Except Fault α → Reading α
    | .ok a => return a
    | .error e => throw e

/-- How greedy a repetition is, by what follows its bounds. -/
def greed : Reading Greed := do
  if ← accept '?' then return .least
  else if ← accept '+' then return .possessive
  else return .most

/-- A repetition of the last part, of which the bounds have been read. -/
def repeatLast (min : Nat) (max : Option Nat) : List Part → Reading (List Part)
  | [] => fail "nothing to repeat"
  | last :: parts => do
    match last.kind with
    | .place => fail "nothing to repeat"
    | .repetition => fail "multiple repeat"
    | .other =>
      let greed ← greed
      modify fun d => { d with repeats := true }
      return ⟨.repetition, .repeated last.body min max greed⟩ :: parts

/-! ### Settings -/

/-- Turns a setting on. -/
def Flags.turnOn (f : Flags) : Char → Option Flags
  | 'i' => some { f with ignoreCase := true }
  | 'm' => some { f with multiline := true }
  | 's' => some { f with dotAll := true }
  | 'x' => some { f with verbose := true }
  | 'a' => some { f with ascii := true }
  | 'u' => some { f with unicode := true }
  | 't' => some { f with template := true }
  | _ => none

/-- The settings that are on in one of two. -/
def Flags.union (f g : Flags) : Flags where
  ignoreCase := f.ignoreCase || g.ignoreCase
  multiline := f.multiline || g.multiline
  dotAll := f.dotAll || g.dotAll
  verbose := f.verbose || g.verbose
  ascii := f.ascii || g.ascii
  unicode := f.unicode || g.unicode
  template := f.template || g.template

/-- The settings inside a group that turns some on and some off. Naming a range of characters
replaces the range in force. -/
def Flags.scoped (f on off : Flags) : Flags :=
  let f := if on.ascii || on.unicode then { f with ascii := false, unicode := false } else f
  let g := f.union on
  { g with
    ignoreCase := g.ignoreCase && !off.ignoreCase
    multiline := g.multiline && !off.multiline
    dotAll := g.dotAll && !off.dotAll
    verbose := g.verbose && !off.verbose }

/-- Whether two have a setting in common. -/
def Flags.meets (f g : Flags) : Bool :=
  (f.ignoreCase && g.ignoreCase) || (f.multiline && g.multiline) || (f.dotAll && g.dotAll) ||
    (f.verbose && g.verbose)

/-- The settings to turn on, from a first letter up to a hyphen, a colon or a closing parenthesis,
which is given too. -/
def settingsOn : (fuel : Nat) → Flags → Char → Reading (Flags × Char)
  | 0, _, _ => fail "missing -, : or )"
  | fuel + 1, f, c => do
    let some f := f.turnOn c | fail "unknown flag"
    if f.ascii && f.unicode then fail "flags 'a', 'u' and 'L' are incompatible"
    match ← take with
    | some (.plain c) =>
      if c = ')' || c = '-' || c = ':' then return (f, c) else settingsOn fuel f c
    | _ => fail "missing -, : or )"

/-- The settings to turn off, up to a colon. -/
def settingsOff : (fuel : Nat) → Flags → Reading Flags
  | 0, _ => fail "missing flag"
  | fuel + 1, f => do
    match ← take with
    | some (.plain c) =>
      if c = 'a' || c = 'u' then fail "cannot turn off flags 'a', 'u' and 'L'"
      let some f := f.turnOn c | fail "unknown flag"
      if (← peek) = some (.plain ':') then
        let _ ← take
        return f
      else settingsOff fuel f
    | _ => fail "missing flag"

/-- What a list of settings asks for. -/
inductive Settings where
  /-- Settings for the whole pattern, which have been noted. -/
  | whole
  /-- Settings to turn on and off in the group that begins. -/
  | scoped (on off : Flags)

/-- A list of settings, of which the first character has been read. -/
def settings (first : Char) : Reading Settings := do
  let n ← remaining
  let (on, stop) ← if first = '-' then pure ({}, '-') else settingsOn n {} first
  if stop = ')' then
    modify fun d => { d with flags := d.flags.union on }
    return .whole
  else if on.template then fail "cannot turn on global flag"
  else
    let off ← if stop = '-' then settingsOff n {} else pure {}
    if off.template then fail "cannot turn off global flag"
    else if on.meets off then fail "flag turned on and off"
    else return .scoped on off

/-! ### Groups -/

/-- Skips a comment, of which the opening has been read. -/
def skipComment : (fuel : Nat) → Reading Unit
  | 0 => fail "missing ), unterminated comment"
  | fuel + 1 => do
    match ← take with
    | none => fail "missing ), unterminated comment"
    | some t => if t = .plain ')' then return () else skipComment fuel

/-- Skips the rest of a line. -/
def skipLine : (fuel : Nat) → Reading Unit
  | 0 => return ()
  | fuel + 1 => do
    match ← take with
    | none => return ()
    | some t => if t = .plain '\n' then return () else skipLine fuel

/-- A name for a group, up to a terminator, which is taken too. -/
def groupName (terminator : Char) : Reading (List Char) := do
  let s ← takeUntil terminator
  if Text.isIdentifier s then return s else fail "bad character in group name"

/-- The number of a named group. -/
def numberOf (name : List Char) : Reading Nat := do
  match (← get).names.lookup name with
  | some number => return number
  | none => fail "unknown group name"

/-- Group numbers from here on are out of range. -/
def groupLimit : Nat := 1073741823

/-- The group that a condition asks about, by name or by number, up to the closing parenthesis. A
group that is asked about by number may come later. -/
def askedGroup : Reading Nat := do
  let s ← takeUntil ')'
  let number ← if Text.isIdentifier s then numberOf s else
    match Text.wholeNumber? s with
    | some (.ofNat 0) => fail "bad group number"
    | some (.ofNat n) =>
      if groupLimit ≤ n then fail "invalid group reference"
      modify fun d => { d with askedGroup := max d.askedGroup n }
      pure n
    | _ => fail "bad character in group name"
  checkLookback number
  return number

/-- Reads the closing parenthesis of a group. -/
def close : Reading Unit := do
  if ← accept ')' then return () else fail "missing ), unterminated subpattern"

/-- Runs a step inside a look back. -/
def insideLookback (step : Reading Regex) : Reading Regex := do
  let d ← get
  set { d with lookbackFrom := d.lookbackFrom.getD d.widths.length }
  let body ← step
  modify fun e => { e with lookbackFrom := d.lookbackFrom }
  return body

/-- The greatest width that a look back may have. -/
def lookbackLimit : Nat := 4294967295

/-- A look back, which is noted if it has no fixed width. -/
def lookBack (positive : Bool) (body : Regex) : Reading Regex := do
  let d ← get
  match (width d.widthOf body).fixed? with
  | some n =>
    if n ≤ lookbackLimit then return .behind positive n body
    else set { d with unevenLookback := true }; return .empty
  | none => set { d with unevenLookback := true }; return .empty

/-- What the characters behind an opening parenthesis make of a group. -/
inductive Opening where
  /-- A group that keeps its text, perhaps under a name. -/
  | keeping (name : Option (List Char))
  /-- A group that only groups, under some settings. -/
  | plain (on off : Flags)
  /-- A group that is not tried in another way. -/
  | atomic
  /-- A look ahead. -/
  | ahead (positive : Bool)
  /-- A look back. -/
  | behind (positive : Bool)
  /-- A choice that depends on a group. -/
  | condition (number : Nat)
  /-- A reference to a named group, which is complete. -/
  | reference (number : Nat)
  /-- A comment, which is complete. -/
  | comment
  /-- Settings for the whole pattern, which are complete. -/
  | settings

/-- The opening of a group behind the parenthesis. -/
def opening : Reading Opening := do
  if !(← accept '?') then return .keeping none
  let some (.plain c) ← take | fail "unexpected end of pattern"
  match c with
  | 'P' =>
    if ← accept '<' then return .keeping (some (← groupName '>'))
    else if ← accept '=' then return .reference (← numberOf (← groupName ')'))
    else fail "unknown extension ?P"
  | ':' => return .plain {} {}
  | '#' => skipComment (← remaining); return .comment
  | '=' => return .ahead true
  | '!' => return .ahead false
  | '<' =>
    if ← accept '=' then return .behind true
    else if ← accept '!' then return .behind false
    else fail "unknown extension ?<"
  | '(' => return .condition (← askedGroup)
  | '>' => return .atomic
  | _ =>
    match ← settings c with
    | .whole => return .settings
    | .scoped on off => return .plain on off

/-! ### Alternatives and sequences -/

/-- Blanks that are skipped where blanks and comments do not count. -/
def isSkipped (c : Char) : Bool := " \t\n\r\x0b\x0c".toList.contains c

mutual

/-- Alternatives. At the top of the pattern, the settings for the whole pattern are in force, which
its first alternative may begin with. -/
def readAlternatives : (fuel : Nat) → (top : Bool) → Flags → Reading Regex
  | 0, _, _ => fail "pattern too deep"
  | fuel + 1, top, flags => do
    let first ← readSequence fuel top flags []
    return .eitherAll (first :: (← readFurther fuel top flags))

/-- The alternatives behind the first. -/
def readFurther : (fuel : Nat) → (top : Bool) → Flags → Reading (List Regex)
  | 0, _, _ => fail "pattern too deep"
  | fuel + 1, top, flags => do
    if ← accept '|' then
      let d ← get
      let flags := if top then d.flags else flags
      let r ← readSequence fuel false flags []
      return r :: (← readFurther fuel top flags)
    else return []

/-- A sequence behind some parts, of which the last is given first. Only the first sequence of the
whole pattern may begin with settings. -/
def readSequence : (fuel : Nat) → (first : Bool) → Flags → List Part → Reading Regex
  | 0, _, _, _ => fail "pattern too deep"
  | fuel + 1, first, flags, parts => do
    match ← peek with
    | none | some (.plain '|') | some (.plain ')') => return sequenceOf parts
    | some (.escaped c) =>
      let _ ← take
      readSequence fuel first flags (.of (← escape flags c) :: parts)
    | some (.plain c) =>
      let _ ← take
      if flags.verbose && isSkipped c then readSequence fuel first flags parts
      else if flags.verbose && c = '#' then
        skipLine (← remaining)
        readSequence fuel first flags parts
      else match c with
      | '[' => readSequence fuel first flags (.of (.single (← bracketSet flags)) :: parts)
      | '.' => readSequence fuel first flags (.of (.single (.any flags.dotAll)) :: parts)
      | '^' =>
        let a := if flags.multiline then Anchor.lineStart else .textStart
        readSequence fuel first flags (.of (.anchor a) :: parts)
      | '$' =>
        let a := if flags.multiline then Anchor.lineEnd else .lastLineEnd
        readSequence fuel first flags (.of (.anchor a) :: parts)
      | '?' => readSequence fuel first flags (← repeatLast 0 (some 1) parts)
      | '*' => readSequence fuel first flags (← repeatLast 0 none parts)
      | '+' => readSequence fuel first flags (← repeatLast 1 none parts)
      | '\x7b' =>
        match ← bounds with
        | none => readSequence fuel first flags (.of (literal flags c.toNat) :: parts)
        | some (min, max) => readSequence fuel first flags (← repeatLast min max parts)
      | '(' =>
        match ← opening with
        | .comment => readSequence fuel first flags parts
        | .settings =>
          if first && parts.isEmpty then
            readSequence fuel first (← get).flags parts
          else fail "global flags not at the start of the expression"
        | o => readSequence fuel first flags (⟨.other, ← readGroup fuel flags o⟩ :: parts)
      | _ => readSequence fuel first flags (.of (literal flags c.toNat) :: parts)

/-- The group behind an opening. -/
def readGroup : (fuel : Nat) → Flags → Opening → Reading Regex
  | 0, _, _ => fail "pattern too deep"
  | fuel + 1, flags, o => do
    match o with
    | .comment | .settings => return .empty
    | .reference number => reference flags number
    | .keeping name =>
      let number ← openGroup name
      let body ← readAlternatives fuel false flags
      close
      closeGroup number body
      return .group number body
    | .plain on off =>
      let body ← readAlternatives fuel false (flags.scoped on off)
      close
      return body
    | .atomic =>
      let body ← readAlternatives fuel false flags
      close
      return .atomic body
    | .ahead positive =>
      let body ← readAlternatives fuel false flags
      close
      return .ahead positive body
    | .behind positive =>
      let body ← insideLookback (readAlternatives fuel false flags)
      close
      lookBack positive body
    | .condition number =>
      let yes ← readSequence fuel false flags []
      let no ← if ← accept '|' then readSequence fuel false flags [] else pure .empty
      if (← peek) = some (.plain '|') then
        fail "conditional backref with more than two branches"
      close
      return .ifGroup number yes no

end

/-! ### Whole patterns -/

/-- What can only be seen of the whole pattern. -/
def Draft.check (d : Draft) : Except Fault Unit :=
  if d.flags.ascii && d.flags.unicode then .error .flagConflict
  else if d.input.next.isSome then .error (.malformed "unbalanced parenthesis")
  else if d.widths.length < d.askedGroup then .error (.malformed "invalid group reference")
  else if d.unevenLookback then .error (.malformed "look-behind requires fixed-width pattern")
  else if d.flags.template && d.repeats then .error (.malformed "unsupported template operator")
  else .ok ()

/-- The pattern that a text denotes under some settings, with some characters that can be called by
name. -/
def readWith (characters : CharNames) (flags : Flags) (s : List Char) : Except Fault Pattern := do
  let input ← Input.ofChars s
  let draft : Draft := ⟨characters, input, flags, [], [], none, 0, false, false⟩
  let (body, d) ← (readAlternatives (4 * s.length + 4) true flags).run draft
  d.check
  return ⟨body, d.widths.length⟩

/-- The pattern that a text denotes. -/
def read (characters : CharNames) (s : List Char) : Except Fault Pattern := readWith characters {} s

end FlagAudit.Regex
