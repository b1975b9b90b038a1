import FlagAudit.Config.Setting

/-!
# YAML nodes

A YAML document is a tree of nodes. Every node has a tag that says what it stands for: one of the
`Tag`s that are known here, or an unknown one, which cannot be understood.
-/

namespace FlagAudit.Yaml

/-- Why a text cannot be read as a YAML document. -/
inductive Fault where
  /-- It does not follow the notation, or it says something that cannot be understood. -/
  | malformed
  /-- It has a number, a character or a date that does not exist. -/
  | badValue
  /-- It has a number that is too large for a code point. -/
  | tooLarge
  /-- It has a number to the base sixty with so many parts that their weights are too large. -/
  | tooManyParts
  /-- It has a text that is said to be a truth value, and no truth value is called so. -/
  | noTruthValue (word : String)
  /-- It has a text that is said to be a number, and the number has no digits. -/
  | noDigits
  /-- It has a text that is said to be a date and does not have the form of one. -/
  | noDate
  /-- It has a mapping that is said to be a date. -/
  | noDateText
  deriving DecidableEq, Repr

/-- What a node stands for. -/
inductive Tag where
  /-- No value. -/
  | null
  /-- A truth value. -/
  | bool
  /-- A whole number. -/
  | int
  /-- A number. -/
  | float
  /-- Bytes in base 64. -/
  | binary
  /-- A date, perhaps with a time. -/
  | timestamp
  /-- An ordered table. -/
  | omap
  /-- A list of pairs. -/
  | pairs
  /-- A set of values. -/
  | set
  /-- A text. -/
  | str
  /-- A list. -/
  | seq
  /-- A table. -/
  | map
  /-- As a key: the fields of another table. -/
  | merge
  /-- As a key: the value of a table. -/
  | value
  /-- Anything else. -/
  | unknown
  deriving DecidableEq, Repr

/-- The start of the full names of the tags. -/
def tagStart : String := "tag:yaml.org,2002:"

/-- The tag with a full name. -/
def Tag.ofName (name : String) : Tag :=
  match [("null", Tag.null), ("bool", .bool), ("int", .int), ("float", .float),
      ("binary", .binary), ("timestamp", .timestamp), ("omap", .omap), ("pairs", .pairs),
      ("set", .set), ("str", .str), ("seq", .seq), ("map", .map), ("merge", .merge),
      ("value", .value)].find? fun t => tagStart ++ t.1 == name with
  | some (_, tag) => tag
  | none => .unknown

/-- A node of a document. -/
inductive Node where
  /-- A text, however it is understood. -/
  | scalar (tag : Tag) (text : List Char)
  /-- A list of nodes. -/
  | sequence (tag : Tag) (items : List Node)
  /-- Pairs of nodes. -/
  | mapping (tag : Tag) (pairs : List (Node × Node))
  /-- A list or a mapping that this node is itself a part of. -/
  | ring
  deriving Repr, Inhabited

/-- The tag of a node; a ring is part of what it refers to and has none of its own. -/
def Node.tag? : Node → Option Tag
  | .scalar tag _ | .sequence tag _ | .mapping tag _ => some tag
  | .ring => none

/-- Whether the character ends a line. -/
def isBreak (c : Char) : Bool :=
  c == '\n' || c == '\r' || c == '\u0085' || c == '\u2028' || c == '\u2029'

/-- Whether the character may occur in a document. -/
def isAllowed (c : Char) : Bool :=
  c == '\t' || c == '\n' || c == '\r' || (' ' ≤ c && c ≤ '~') || c == '\u0085' ||
    ('\u00a0' ≤ c && c ≤ '\ud7ff') || ('\ue000' ≤ c && c ≤ '\ufffd') || 0x10000 ≤ c.toNat

end FlagAudit.Yaml
