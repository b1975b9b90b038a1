import FlagAudit.Text.Utf8
import FlagAudit.Yaml.Scalar

/-!
# Tokens of YAML

The smallest parts of a YAML document, and how those are read that are neither texts nor single
marks: directives, anchors and tags.
-/

namespace FlagAudit.Yaml

/-- A line that says something about the document. -/
inductive Directive where
  /-- The version of the notation. -/
  | version (major : Nat)
  /-- What a handle of tags stands for. -/
  | handle (name full : List Char)
  /-- A line that means nothing here. -/
  | other
  deriving DecidableEq, Repr

/-- A token. -/
inductive Token where
  /-- A line that says something about the document. -/
  | directive (d : Directive)
  /-- A document starts. -/
  | documentStart
  /-- A document ends. -/
  | documentEnd
  /-- An indented list starts. -/
  | listStart
  /-- An indented mapping starts. -/
  | mapStart
  /-- An indented list or mapping ends. -/
  | blockEnd
  /-- A list in brackets starts. -/
  | openBracket
  /-- A list in brackets ends. -/
  | closeBracket
  /-- A mapping in braces starts. -/
  | openBrace
  /-- A mapping in braces ends. -/
  | closeBrace
  /-- An entry of an indented list. -/
  | dash
  /-- Another entry in brackets or braces. -/
  | comma
  /-- A key comes. -/
  | key
  /-- A value comes. -/
  | value
  /-- A node from before. -/
  | alias (name : List Char)
  /-- A name for the node that comes. -/
  | anchor (name : List Char)
  /-- A tag for the node that comes: a handle, if there is one, and the rest. -/
  | tag (handle : Option (List Char)) (rest : List Char)
  /-- A text, and whether it is written plainly. -/
  | scalar (text : List Char) (plain : Bool)
  deriving DecidableEq, Repr

/-- Whether the character may be in a name. -/
def isNameChar (c : Char) : Bool := c.isAlphanum || c == '-' || c == '_'

/-! ### Tags -/

/-- Whether the character may be in the name of a tag. -/
def isUriChar (c : Char) : Bool := c.isAlphanum || "-;/?:@&=+$,_.!~*'()[]".toList.contains c

/-- Characters given by their bytes, each behind a percent sign. -/
def uriBytes : (fuel : Nat) → Place → Except Fault (List UInt8 × Place)
  | 0, _ => malformed
  | fuel + 1, p =>
    match p.rest with
    | '%' :: a :: b :: _ =>
      if isHexDigit a && isHexDigit b then do
        let (bs, p) ← uriBytes fuel (p.forward 3)
        return ((hexNumber [a, b]).toUInt8 :: bs, p)
      else malformed
    | '%' :: _ => malformed
    | _ => .ok ([], p)

/-- The parts of the name of a tag; it may be empty. -/
def uriFrom : (fuel : Nat) → Place → Except Fault (List Char × Place)
  | 0, _ => malformed
  | fuel + 1, p =>
    match p.peek with
    | none => .ok ([], p)
    | some c =>
      if c == '%' then do
        let (bytes, p) ← uriBytes (p.rest.length + 1) p
        match Text.Utf8.decode bytes with
        | some t =>
          let (u, p) ← uriFrom fuel p
          return (t ++ u, p)
        | none => malformed
      else if isUriChar c then do
        let (u, p) ← uriFrom fuel p.next
        return (c :: u, p)
      else .ok ([], p)

/-- The name of a tag. -/
def uri (p : Place) : Except Fault (List Char × Place) := do
  if p.peek.all fun c => !(c == '%' || isUriChar c) then malformed
  uriFrom (p.rest.length + 1) p

/-- A handle of tags: one exclamation mark, or two with a name between them. -/
def tagHandle (p : Place) : Except Fault (List Char × Place) :=
  if !p.standsAt '!' then malformed
  else if p.peekAt 1 == some ' ' then .ok (['!'], p.next)
  else
    let (name, q) := p.next.takeWhile isNameChar
    if q.standsAt '!' then .ok ('!' :: name ++ ['!'], q.next) else malformed

/-- Whether a text has another exclamation mark before the next space or line end. -/
def hasHandle (s : List Char) : Bool := (s.takeWhile fun c => !(c == ' ' || isBreak c)).contains '!'

/-- A tag. -/
def tag (p : Place) : Except Fault (Token × Place) := do
  let (t, p) ←
    if p.peekAt 1 == some '<' then do
      let (name, p) ← uri (p.forward 2)
      if p.standsAt '>' then pure (Token.tag none name, p.next) else malformed
    else if isGap (p.peekAt 1) then pure (Token.tag none ['!'], p.next)
    else if hasHandle p.next.rest then do
      let (handle, p) ← tagHandle p
      let (name, p) ← uri p
      pure (Token.tag (some handle) name, p)
    else do
      let (name, p) ← uri p.next
      pure (Token.tag (some ['!']) name, p)
  if isSpaceOrEnd p.peek then return (t, p) else malformed

/-! ### Anchors and directives -/

/-- The name of an anchor behind its mark. -/
def anchorName (p : Place) : Except Fault (List Char × Place) :=
  let (name, p) := p.next.takeWhile isNameChar
  if name.isEmpty then malformed
  else if isGap p.peek || p.peek.any ("?:,]\x7d%@`".toList.contains ·) then .ok (name, p)
  else malformed

/-- A number in decimal digits. -/
def number (p : Place) : Except Fault (Nat × Place) :=
  let (ds, p) := p.takeWhile Char.isDigit
  if ds.isEmpty then malformed else .ok (ds.foldl (fun n d => 10 * n + (d.toNat - 48)) 0, p)

/-- What a directive with some name says. -/
def directiveValue (name : List Char) (p : Place) : Except Fault (Directive × Place) := do
  if name == "YAML".toList then
    let (major, p) ← number p.skipSpaces
    if !p.standsAt '.' then malformed
    let (_, p) ← number p.next
    if isSpaceOrEnd p.peek then return (.version major, p) else malformed
  else if name == "TAG".toList then
    let (handle, p) ← tagHandle p.skipSpaces
    if !p.standsAt ' ' then malformed
    let (full, p) ← uri p.skipSpaces
    if isSpaceOrEnd p.peek then return (.handle handle full, p) else malformed
  else return (.other, p.skipLine)

/-- A directive. -/
def directive (p : Place) : Except Fault (Token × Place) := do
  let (name, p) := p.next.takeWhile isNameChar
  if name.isEmpty || !isSpaceOrEnd p.peek then malformed
  let (d, p) ← directiveValue name p
  let p := p.skipSpaces.skipComment
  if p.atLineEnd then return (.directive d, p.takeBreak.2) else malformed

end FlagAudit.Yaml
