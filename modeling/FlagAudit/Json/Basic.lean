/-!
# JSON values

A JSON document is a value of type `Json`. Whole numbers are kept exactly. Of a number with a
fraction or an exponent, and of the names for infinity and for what is not a number, only whether it
is zero is kept.
-/

namespace FlagAudit

/-- A JSON value. -/
inductive Json where
  /-- The value `null`. -/
  | null
  /-- A truth value. -/
  | bool (value : Bool)
  /-- A whole number. -/
  | int (value : Int)
  /-- A number with a fraction or an exponent, or a name for one that is not finite. -/
  | float (zero : Bool)
  /-- A text. -/
  | string (value : String)
  /-- A list of values. -/
  | array (items : List Json)
  /-- Keys with their values, in the order in which they are written. -/
  | object (fields : List (String × Json))
  deriving Repr, Inhabited, BEq

namespace Json

/-- The value of a key. If the key is written more than once, the last value counts. -/
def field? (key : String) : Json → Option Json
  | .object fields => (fields.reverse.find? (·.1 == key)).map (·.2)
  | _ => none

mutual

/-- The whole numbers in a value, in the order in which they are written. -/
def integers : Json → List Int
  | .int n => [n]
  | .array items => integersOfItems items
  | .object fields => integersOfFields fields
  | _ => []

/-- The whole numbers in some items. -/
def integersOfItems : List Json → List Int
  | [] => []
  | x :: xs => integers x ++ integersOfItems xs

/-- The whole numbers in some fields. -/
def integersOfFields : List (String × Json) → List Int
  | [] => []
  | f :: fs => integersOfField f ++ integersOfFields fs

/-- The whole numbers in the value of a field. -/
def integersOfField : String × Json → List Int
  | (_, value) => integers value

end

end Json

end FlagAudit
