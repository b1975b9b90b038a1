import FlagAudit.Json.Basic

/-!
# Settings

Whatever notation a configuration is written in, it comes to the same few kinds of values. Of
numbers, dates and other values that no setting takes, only whether they count as empty is kept.
-/

namespace FlagAudit

/-- A value in a configuration. -/
inductive Setting where
  /-- No value. -/
  | nothing
  /-- A truth value. -/
  | flag (value : Bool)
  /-- A text. -/
  | text (value : String)
  /-- A list of values. -/
  | list (items : List Setting)
  /-- Named values. Of a name that occurs more than once, the last value counts. -/
  | table (fields : List (String × Setting))
  /-- Any other value. -/
  | other (empty : Bool)
  deriving Repr, Inhabited, BEq

namespace Setting

/-- The value under a name. -/
def field? (name : String) : Setting → Option Setting
  | .table fields => (fields.reverse.find? (·.1 == name)).map (·.2)
  | _ => none

/-- Whether the value counts as empty. -/
def isEmpty : Setting → Bool
  | .nothing => true
  | .flag value => !value
  | .text value => value.isEmpty
  | .list items => items.isEmpty
  | .table fields => fields.isEmpty
  | .other empty => empty

/-- The texts of a list; its other items are left out. -/
def texts? : Setting → Option (List String)
  | .list items => some <| items.filterMap fun
      | .text value => some value
      | _ => none
  | _ => none

mutual

/-- A JSON value as a setting. -/
def ofJson : Json → Setting
  | .null => .nothing
  | .bool value => .flag value
  | .int value => .other (value == 0)
  | .float zero => .other zero
  | .string value => .text value
  | .array items => .list (ofItems items)
  | .object fields => .table (ofFields fields)

/-- JSON values as settings. -/
def ofItems : List Json → List Setting
  | [] => []
  | x :: xs => ofJson x :: ofItems xs

/-- Named JSON values as settings. -/
def ofFields : List (String × Json) → List (String × Setting)
  | [] => []
  | f :: fs => ofField f :: ofFields fs

/-- A named JSON value as a setting. -/
def ofField : String × Json → String × Setting
  | (name, value) => (name, ofJson value)

end

end Setting

end FlagAudit
