import FlagAudit.Yaml.Form
import FlagAudit.Yaml.Layout

/-!
# The document in a YAML text

The tokens of a document make up a tree of nodes. An anchor gives a node a name, and an alias stands
for the node of that name; an alias inside the node itself makes a ring.
-/

namespace FlagAudit.Yaml

/-- What a name stands for; nothing as long as its node is not complete. -/
abbrev Anchors := List (List Char × Option Node)

/-- How far the tree has been built. -/
structure Progress where
  /-- The tokens that are left. -/
  tokens : List Token
  /-- The fault behind the tokens. -/
  fault : Option Fault
  /-- The names so far. -/
  anchors : Anchors
  /-- What the handles of tags stand for. -/
  handles : List (List Char × List Char)

/-- A step of building. -/
abbrev Building := StateT Progress (Except Fault)

namespace Building

/-- The tokens do not make a document. -/
def fail {α : Type} : Building α := throw .malformed

/-- The next token, left in place. -/
def peek : Building (Option Token) := do
  let c ← get
  match c.tokens.head?, c.fault with
  | none, some fault => throw fault
  | t, _ => return t

/-- Drops the next token. -/
def drop : Building Unit := modify fun c => { c with tokens := c.tokens.tail }

/-- Takes the next token if it is the given one. -/
def accept (t : Token) : Building Bool := do
  if (← peek) == some t then
    drop
    return true
  else return false

/-- Whether the next token is one of some tokens. -/
def isNext (ts : List Token) : Building Bool := return (← peek).any ts.contains

/-- The anchor that comes next, if there is one. -/
def takeAnchor : Building (Option (List Char)) := do
  match ← peek with
  | some (.anchor name) =>
    drop
    return some name
  | _ => return none

/-- The full name of the tag that comes next, if there is one. -/
def takeTag : Building (Option (List Char)) := do
  match ← peek with
  | some (.tag none rest) =>
    drop
    return some rest
  | some (.tag (some handle) rest) =>
    drop
    match (← get).handles.lookup handle with
    | some full => return some (full ++ rest)
    | none => fail
  | _ => return none

/-- An anchor and a tag, in any order. -/
def properties : Building (Option (List Char) × Option (List Char)) := do
  match ← takeAnchor with
  | some a => return (some a, ← takeTag)
  | none =>
    match ← takeTag with
    | some t => return (← takeAnchor, some t)
    | none => return (none, none)

/-- Notes that a name is taken by a node that is not complete. A name can be given only once. -/
def openAnchor (name : Option (List Char)) : Building Unit := do
  match name with
  | none => return ()
  | some n =>
    if ((← get).anchors.lookup n).isSome then fail
    modify fun c => { c with anchors := (n, none) :: c.anchors }

/-- Notes that the node of a name is complete. -/
def closeAnchor (name : Option (List Char)) (node : Node) : Building Node := do
  match name with
  | none => return node
  | some n =>
    modify fun c => { c with anchors := (n, some node) :: c.anchors }
    return node

/-- The tag of a text. A tag that is only an exclamation mark makes the form of the text count even
between quotes. -/
def scalarTag (tag : Option (List Char)) (plain : Bool) (text : List Char) : Tag :=
  match tag with
  | none => if plain then tagOfForm text else .str
  | some t => if t == ['!'] then tagOfForm (beforeLineFeed text) else .ofName (String.ofList t)

/-- The tag of a list or a mapping. -/
def collectionTag (tag : Option (List Char)) (default : Tag) : Tag :=
  match tag with
  | none => default
  | some t => if t == ['!'] then default else .ofName (String.ofList t)

/-- The node that stands where nothing is written. -/
def nothing : Node := .scalar .null []

mutual

/-- A node. Indented lists and mappings are allowed in `block` context only, and lists that are not
indented where `indentless` says so. -/
def node : (fuel : Nat) → (block indentless : Bool) → Building Node
  | 0, _, _ => fail
  | fuel + 1, block, indentless => do
    match ← peek with
    | some (.alias name) =>
      drop
      match (← get).anchors.lookup name with
      | some (some n) => return n
      | some none => return .ring
      | none => fail
    | _ =>
      let (anchor, tag) ← properties
      openAnchor anchor
      let n ← content fuel block indentless (anchor.isSome || tag.isSome) tag
      closeAnchor anchor n

/-- The content of a node behind its anchor and tag. If it has one of them it may be empty. -/
def content : (fuel : Nat) → (block indentless mayBeEmpty : Bool) → Option (List Char) →
    Building Node
  | 0, _, _, _, _ => fail
  | fuel + 1, block, indentless, mayBeEmpty, tag => do
    match ← peek with
    | some (.scalar text plain) =>
      drop
      return .scalar (scalarTag tag plain text) text
    | some .openBracket =>
      drop
      return .sequence (collectionTag tag .seq) (← flowItems fuel true)
    | some .openBrace =>
      drop
      return .mapping (collectionTag tag .map) (← flowPairs fuel true)
    | some .listStart =>
      if !block then fail
      drop
      return .sequence (collectionTag tag .seq) (← blockItems fuel)
    | some .mapStart =>
      if !block then fail
      drop
      return .mapping (collectionTag tag .map) (← blockPairs fuel)
    | t =>
      if indentless && t == some .dash then
        return .sequence (collectionTag tag .seq) (← indentlessItems fuel)
      else if mayBeEmpty then return .scalar (scalarTag tag true []) []
      else fail

/-- A node in block context, or nothing if one of some tokens comes. -/
def blockNodeOr : (fuel : Nat) → (indentless : Bool) → List Token → Building Node
  | 0, _, _ => fail
  | fuel + 1, indentless, stops => do
    if ← isNext stops then return nothing else node fuel true indentless

/-- A node inside brackets, or nothing if one of some tokens comes. -/
def flowNodeOr : (fuel : Nat) → List Token → Building Node
  | 0, _ => fail
  | fuel + 1, stops => do
    if ← isNext stops then return nothing else node fuel false false

/-- The items of an indented list. -/
def blockItems : (fuel : Nat) → Building (List Node)
  | 0 => fail
  | fuel + 1 => do
    if ← accept .dash then
      let n ← blockNodeOr fuel false [.dash, .blockEnd]
      return n :: (← blockItems fuel)
    else if ← accept .blockEnd then return []
    else fail

/-- The items of a list that is not indented. -/
def indentlessItems : (fuel : Nat) → Building (List Node)
  | 0 => fail
  | fuel + 1 => do
    if ← accept .dash then
      let n ← blockNodeOr fuel false [.dash, .key, .value, .blockEnd]
      return n :: (← indentlessItems fuel)
    else return []

/-- The pairs of an indented mapping. -/
def blockPairs : (fuel : Nat) → Building (List (Node × Node))
  | 0 => fail
  | fuel + 1 => do
    if ← accept .blockEnd then return []
    else
      if !(← accept .key) then fail
      let k ← blockNodeOr fuel true [.key, .value, .blockEnd]
      let v ← if ← accept .value then blockNodeOr fuel true [.key, .value, .blockEnd]
        else pure nothing
      return (k, v) :: (← blockPairs fuel)

/-- The items of a list in brackets. An item can be a single pair, which makes a mapping of its own.
-/
def flowItems : (fuel : Nat) → (first : Bool) → Building (List Node)
  | 0, _ => fail
  | fuel + 1, first => do
    if ← accept .closeBracket then return []
    else
      if !first then
        if !(← accept .comma) then fail
      if ← accept .key then
        let k ← flowNodeOr fuel [.value, .comma, .closeBracket]
        let v ← if ← accept .value then flowNodeOr fuel [.comma, .closeBracket]
          else pure nothing
        return .mapping .map [(k, v)] :: (← flowItems fuel false)
      else if ← accept .closeBracket then return []
      else
        let n ← node fuel false false
        return n :: (← flowItems fuel false)

/-- The pairs of a mapping in braces. A node without a colon is a key without a value. -/
def flowPairs : (fuel : Nat) → (first : Bool) → Building (List (Node × Node))
  | 0, _ => fail
  | fuel + 1, first => do
    if ← accept .closeBrace then return []
    else
      if !first then
        if !(← accept .comma) then fail
      if ← accept .key then
        let k ← flowNodeOr fuel [.value, .comma, .closeBrace]
        let v ← if ← accept .value then flowNodeOr fuel [.comma, .closeBrace]
          else pure nothing
        return (k, v) :: (← flowPairs fuel false)
      else if ← accept .closeBrace then return []
      else
        let k ← node fuel false false
        return (k, nothing) :: (← flowPairs fuel false)

end

/-! ### Documents -/

/-- The handles that every document knows. -/
def commonHandles : List (List Char × List Char) :=
  [(['!'], ['!']), (['!', '!'], tagStart.toList)]

/-- The directives before a document, in at most `fuel` steps. The version can be given only once,
and so can each handle. -/
def directives : (fuel : Nat) → (versioned : Bool) → List (List Char × List Char) →
    Building (List (List Char × List Char))
  | 0, _, _ => fail
  | fuel + 1, versioned, handles => do
    match ← peek with
    | some (.directive d) =>
      drop
      match d with
      | .version major =>
        if versioned || major != 1 then fail else directives fuel true handles
      | .handle name full =>
        if (handles.lookup name).isSome then fail
        else directives fuel versioned ((name, full) :: handles)
      | .other => directives fuel versioned handles
    | _ => return handles

/-- Drops the marks at the end of a document, in at most `fuel` steps. -/
def dropEnds : (fuel : Nat) → Building Unit
  | 0 => return ()
  | fuel + 1 => do
    if ← accept .documentEnd then dropEnds fuel

/-- Whether a token is a directive or the mark of a document. -/
def isExplicit : Token → Bool
  | .directive _ | .documentStart => true
  | _ => false

/-- The root of the only document, if there is one. -/
def onlyRoot : Building (Option Node) := do
  let some first ← peek | return none
  let count := (← get).tokens.length
  let fuel := 4 * count + 4
  let root ←
    if isExplicit first then do
      let handles ← directives fuel false []
      modify fun c => { c with handles := handles ++ commonHandles }
      if !(← accept .documentStart) then fail
      let isEmpty := (← peek).all fun t => isExplicit t || t == .documentEnd
      if isEmpty then pure nothing else node fuel true false
    else node fuel true false
  dropEnds count
  if (← peek).isNone then return some root else fail

end Building

/-- The root of the document that a text denotes; an empty text has none. A text has one document at
most. -/
def rootOf (s : List Char) : Except Fault (Option Node) := do
  let tokens := tokens s
  let (root, _) ← Building.onlyRoot.run ⟨tokens.taken, tokens.fault, [], Building.commonHandles⟩
  return root

end FlagAudit.Yaml
