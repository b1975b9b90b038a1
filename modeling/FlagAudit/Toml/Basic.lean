import FlagAudit.Config.Setting
import FlagAudit.Fields

/-!
# TOML values

A TOML document is a table. Of numbers, only whether they are zero is kept, and of dates and times
only which of the three kinds they are.
-/

namespace FlagAudit

namespace Toml

/-- A kind of date or time. -/
inductive Moment where
  /-- A day. -/
  | date
  /-- A time on a day. -/
  | dateTime
  /-- A time on any day. -/
  | time
  deriving DecidableEq, Repr

end Toml

/-- A TOML value. -/
inductive Toml where
  /-- A text. -/
  | text (value : String)
  /-- A whole number. -/
  | whole (zero : Bool)
  /-- A number with a fraction or an exponent, or one that is not finite. -/
  | real (zero : Bool)
  /-- A truth value. -/
  | flag (value : Bool)
  /-- A date or a time. -/
  | moment (kind : Toml.Moment)
  /-- A list of values. -/
  | list (items : List Toml)
  /-- Named values. -/
  | table (fields : List (String × Toml))
  deriving Repr, Inhabited

namespace Toml

/-- The name of the class of a value, by which messages call it. -/
def className : Toml → String
  | .text _ => "str"
  | .whole _ => "int"
  | .real _ => "float"
  | .flag _ => "bool"
  | .moment .date => "datetime.date"
  | .moment .dateTime => "datetime.datetime"
  | .moment .time => "datetime.time"
  | .list _ => "list"
  | .table _ => "dict"

mutual

/-- A TOML value as a setting. -/
def toSetting : Toml → Setting
  | .text value => .text value
  | .whole zero | .real zero => .other zero
  | .flag value => .flag value
  | .moment _ => .other false
  | .list items => .list (itemSettings items)
  | .table fields => .table (fieldSettings fields)

/-- TOML values as settings. -/
def itemSettings : List Toml → List Setting
  | [] => []
  | x :: xs => x.toSetting :: itemSettings xs

/-- Named TOML values as settings. -/
def fieldSettings : List (String × Toml) → List (String × Setting)
  | [] => []
  | f :: fs => fieldSetting f :: fieldSettings fs

/-- A named TOML value as a setting. -/
def fieldSetting : String × Toml → String × Setting
  | (name, value) => (name, value.toSetting)

end

end Toml

end FlagAudit
