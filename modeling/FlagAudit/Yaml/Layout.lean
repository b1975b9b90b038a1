import FlagAudit.Yaml.Token

/-!
# The layout of a YAML text

A text is a list of tokens. Indentation becomes tokens too: where a line is indented further than
what it stands in and holds an entry or a key, a list or a mapping starts, and where a line is
indented less, it ends. A key that is not marked as one is only known to be a key when the colon
behind it is met; so the places where such a key can have started are kept until then. It has to be
in one line and not too long. A fault counts only once the tokens before it have been used.
-/

namespace FlagAudit.Yaml

/-- A place where a key can have started. -/
structure KeyPlace where
  /-- How many tokens are before it. -/
  number : Nat
  /-- Whether there has to be a key, since nothing else can stand there. -/
  required : Bool
  /-- How many characters are before it. -/
  index : Nat
  /-- Its line. -/
  line : Nat
  /-- Its column. -/
  column : Nat

/-- How many characters a key may have that is not marked as one. -/
def keyLimit : Nat := 1024

/-- How far a text has been laid out. -/
structure Layout where
  /-- The place in the text. -/
  place : Place
  /-- The tokens so far, the last one first. -/
  tokens : List Token := []
  /-- How many tokens there are. -/
  count : Nat := 0
  /-- How many brackets and braces are open. -/
  flow : Nat := 0
  /-- The column of the innermost indented list or mapping; outside of all it is negative. -/
  indent : Int := -1
  /-- The columns of those around it, the innermost first. -/
  outer : List Int := []
  /-- Whether a key that is not marked as one can start here. -/
  keyAllowed : Bool := true
  /-- For each number of open brackets, the place where a key can have started. -/
  keys : List (Nat × KeyPlace) := []

/-- The tokens of a text up to a fault, and the fault if there is one. -/
structure Tokens where
  /-- The tokens. -/
  taken : List Token
  /-- What is behind them if the text does not end there. -/
  fault : Option Fault

namespace Layout

/-- Adds a token. -/
def push (s : Layout) (t : Token) : Layout :=
  { s with tokens := t :: s.tokens, count := s.count + 1 }

/-- Adds a token behind the first `number` tokens. -/
def insert (s : Layout) (number : Nat) (t : Token) : Layout :=
  let later := s.count - number
  { s with tokens := s.tokens.take later ++ t :: s.tokens.drop later, count := s.count + 1 }

/-- Goes on to a place. -/
def moveTo (s : Layout) (p : Place) : Layout := { s with place := p }

/-- Allows a key to start, or not. -/
def allowKey (s : Layout) (allowed : Bool) : Layout := { s with keyAllowed := allowed }

/-- Drops the places where a key can no longer have started. -/
def dropStale (s : Layout) : Except Fault Layout :=
  let isStale := fun (k : Nat × KeyPlace) =>
    k.2.line != s.place.line || keyLimit < s.place.index - k.2.index
  if s.keys.any fun k => isStale k && k.2.required then malformed
  else .ok { s with keys := s.keys.filter (!isStale ·) }

/-- Drops the place where a key can have started inside the same brackets. -/
def dropKey (s : Layout) : Except Fault Layout :=
  match s.keys.lookup s.flow with
  | some k =>
    if k.required then malformed
    else .ok { s with keys := s.keys.filter (·.1 != s.flow) }
  | none => .ok s

/-- Keeps this place as one where a key can have started. -/
def saveKey (s : Layout) : Except Fault Layout :=
  if !s.keyAllowed then .ok s
  else do
    let s ← s.dropKey
    let required := s.flow == 0 && s.indent == (s.place.column : Int)
    let k : KeyPlace := ⟨s.count, required, s.place.index, s.place.line, s.place.column⟩
    return { s with keys := (s.flow, k) :: s.keys }

/-- Ends the lists and mappings that are indented further than a column. -/
def unwindTo (column : Int) : (open_ : List Int) → Layout → Layout
  | [], s => s
  | o :: os, s =>
    if column < s.indent then
      unwindTo column os { s.push .blockEnd with indent := o, outer := os }
    else s

/-- Ends the lists and mappings that are indented further than a column. Inside brackets indentation
has no meaning. -/
def unwind (column : Int) (s : Layout) : Layout :=
  if s.flow == 0 then unwindTo column s.outer s else s

/-- Whether something at a column is indented further than what it stands in. -/
def isDeeper (s : Layout) (column : Nat) : Bool := s.indent < (column : Int)

/-- Indents to a column. -/
def indentTo (s : Layout) (column : Nat) : Layout :=
  { s with outer := s.indent :: s.outer, indent := column }

/-- Starts a list or a mapping here, if this place is indented further. -/
def openBlock (s : Layout) (t : Token) : Layout :=
  if s.isDeeper s.place.column then (s.indentTo s.place.column).push t else s

/-- Skips blanks, line ends and comments, in at most `fuel` steps. Behind a line end a key can
start. -/
def skipGaps : (fuel : Nat) → Layout → Layout
  | 0, s => s
  | fuel + 1, s =>
    let p := s.place.skipSpaces.skipComment
    if p.atBreak then
      skipGaps fuel { s with place := p.takeBreak.2, keyAllowed := s.keyAllowed || s.flow == 0 }
    else s.moveTo p

/-- Takes a mark of `n` characters as a token. -/
def mark (s : Layout) (n : Nat) (t : Token) : Layout :=
  (s.push t).moveTo (s.place.forward n)

/-- Ends what is open before a directive or a mark between documents. -/
def endBlocks (s : Layout) : Except Fault Layout := do
  return (← (s.unwind (-1)).dropKey).allowKey false

/-- Takes an opening bracket or brace. -/
def openFlow (s : Layout) (t : Token) : Except Fault Layout := do
  let s ← s.saveKey
  return { s.mark 1 t with flow := s.flow + 1, keyAllowed := true }

/-- Takes a closing bracket or brace. -/
def closeFlow (s : Layout) (t : Token) : Except Fault Layout := do
  if s.flow == 0 then malformed
  let s ← s.dropKey
  return { s.mark 1 t with flow := s.flow - 1, keyAllowed := false }

/-- Takes a comma between entries. -/
def nextFlowEntry (s : Layout) : Except Fault Layout := do
  return ((← s.dropKey).allowKey true).mark 1 .comma

/-- Takes the mark of an entry of an indented list. -/
def nextBlockEntry (s : Layout) : Except Fault Layout := do
  if s.flow == 0 && !s.keyAllowed then malformed
  let s := if s.flow == 0 then s.openBlock .listStart else s
  return ((← (s.allowKey true).dropKey)).mark 1 .dash

/-- Takes the mark of a key. -/
def markedKey (s : Layout) : Except Fault Layout := do
  if s.flow == 0 && !s.keyAllowed then malformed
  let s := if s.flow == 0 then s.openBlock .mapStart else s
  return (← (s.allowKey (s.flow == 0)).dropKey).mark 1 .key

/-- Takes the mark of a value. If a key can have started, it has started there. -/
def nextValue (s : Layout) : Except Fault Layout := do
  match s.keys.lookup s.flow with
  | some k =>
    let s := { s with keys := s.keys.filter (·.1 != s.flow) }
    let s := s.insert k.number .key
    let s := if s.flow == 0 && s.isDeeper k.column then
        (s.indentTo k.column).insert k.number .mapStart
      else s
    return (s.allowKey false).mark 1 .value
  | none =>
    if s.flow == 0 && !s.keyAllowed then malformed
    let s := if s.flow == 0 then s.openBlock .mapStart else s
    return (← (s.allowKey (s.flow == 0)).dropKey).mark 1 .value

/-- Takes a token behind which no key can start, but which can be one itself. -/
def possibleKey (s : Layout) (read : Place → Except Fault (Token × Place)) :
    Except Fault Layout := do
  let s ← s.saveKey
  let (t, p) ← read s.place
  return ((s.push t).moveTo p).allowKey false

/-- Takes a block of lines. -/
def takeBlock (s : Layout) (fold : Bool) : Except Fault Layout := do
  let s ← (s.allowKey true).dropKey
  let (text, p) ← block fold s.indent s.place
  return (s.push (.scalar text false)).moveTo p

/-- Takes a plain text. A key can start behind it if a line has ended. -/
def takePlain (s : Layout) : Except Fault Layout := do
  let s ← s.saveKey
  let ((text, crossed), p) := plain (s.flow != 0) s.indent s.place
  return ((s.push (.scalar text true)).moveTo p).allowKey crossed

/-- Whether a plain text can start here. -/
def startsPlain (s : Layout) : Bool :=
  match s.place.rest with
  | [] => false
  | c :: rest =>
    !(isGap (some c) || "-?:,[]\x7b\x7d#&*!|>'\"%@`".toList.contains c) ||
      (!isGap rest.head? && (c == '-' || (s.flow == 0 && (c == '?' || c == ':'))))

/-- Takes the next token, of which the first character is given. -/
def takeToken (s : Layout) (c : Char) : Except Fault Layout := do
  let p := s.place
  let gapBehind := isGap (p.peekAt 1)
  if p.column == 0 && c == '%' then
    let s ← s.endBlocks
    let (t, p) ← directive p
    return (s.push t).moveTo p
  else if p.column == 0 && startsMark '-' p.rest then return (← s.endBlocks).mark 3 .documentStart
  else if p.column == 0 && startsMark '.' p.rest then return (← s.endBlocks).mark 3 .documentEnd
  else if c == '[' then s.openFlow .openBracket
  else if c == '\x7b' then s.openFlow .openBrace
  else if c == ']' then s.closeFlow .closeBracket
  else if c == '\x7d' then s.closeFlow .closeBrace
  else if c == ',' then s.nextFlowEntry
  else if c == '-' && gapBehind then s.nextBlockEntry
  else if c == '?' && (s.flow != 0 || gapBehind) then s.markedKey
  else if c == ':' && (s.flow != 0 || gapBehind) then s.nextValue
  else if c == '*' then s.possibleKey fun p => do
    let (name, p) ← anchorName p
    return (.alias name, p)
  else if c == '&' then s.possibleKey fun p => do
    let (name, p) ← anchorName p
    return (.anchor name, p)
  else if c == '!' then s.possibleKey tag
  else if c == '|' && s.flow == 0 then s.takeBlock false
  else if c == '>' && s.flow == 0 then s.takeBlock true
  else if c == '\'' || c == '"' then s.possibleKey fun p => do
    let (text, p) ← quoted (c == '"') p
    return (.scalar text false, p)
  else if s.startsPlain then s.takePlain
  else malformed

/-- Takes what comes next: a token, or the end of the text. -/
def step (s : Layout) : Except Fault (Layout × Bool) := do
  let s ← (skipGaps (s.place.rest.length + 1) s).dropStale
  let s := s.unwind s.place.column
  match s.place.peek with
  | none => return (← s.endBlocks, true)
  | some c => return (← s.takeToken c, false)

/-- The tokens of which it is known that no key starts before them. -/
def settledTokens (s : Layout) : List Token :=
  let open_ := s.keys.filter fun k =>
    k.2.line == s.place.line && s.place.index - k.2.index ≤ keyLimit
  let number := open_.foldl (fun n k => min n k.2.number) s.count
  s.tokens.reverse.take number

/-- Takes the tokens from here on, in at most `fuel` steps. -/
def tokensFrom : (fuel : Nat) → Layout → Tokens
  | 0, s => ⟨s.settledTokens, some .malformed⟩
  | fuel + 1, s =>
    match s.step with
    | .ok (s, false) => tokensFrom fuel s
    | .ok (s, true) => ⟨s.tokens.reverse, none⟩
    | .error fault => ⟨s.settledTokens, some fault⟩

end Layout

/-- The tokens of a text. A byte order mark at its start is skipped. -/
def tokens (s : List Char) : Tokens :=
  if !s.all isAllowed then ⟨[], some .malformed⟩
  else
    let p := Place.start s
    let p := if p.standsAt '\ufeff' then p.next else p
    Layout.tokensFrom (s.length + 2) { place := p }

end FlagAudit.Yaml
