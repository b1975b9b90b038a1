import FlagAudit.Toml.Basic

/-!
# Building a TOML document

A document is built statement by statement. A header opens a table or adds one to a list of tables;
an assignment sets a value below the last header. No statement may set a value that is there, open a
table that has been opened, or reach into a value that was written as a whole. `Draft` keeps what is
needed to tell.
-/

namespace FlagAudit.Toml

/-- The names that lead to a value. -/
abbrev Key := List String

/-- The fields of a table. -/
abbrev Fields := List (String × Toml)

/-- Whether a nest may lie in the last item of a list. -/
inductive Access where
  /-- Lists of tables are entered at their last item. -/
  | throughLists
  /-- Only tables are entered. -/
  | tablesOnly
  deriving DecidableEq, Repr

/-- Changes the table that a key leads to. Tables that are missing on the way are made; anything
else on the way that is no table is in the way. -/
def atNest (access : Access) (change : Fields → Option Fields) : Key → Fields → Option Fields
  | [], fields => change fields
  | name :: rest, fields =>
    match fields.lookup name with
    | none => do return setField name (.table (← atNest access change rest [])) fields
    | some (.table below) => do
      return setField name (.table (← atNest access change rest below)) fields
    | some (.list items) =>
      match access, items.getLast? with
      | .throughLists, some (.table below) => do
        let last := Toml.table (← atNest access change rest below)
        return setField name (.list (items.dropLast ++ [last])) fields
      | _, _ => none
    | some _ => none

/-- Sets a value that is not there yet. -/
def insertNew (name : String) (value : Toml) (fields : Fields) : Option Fields :=
  if (fields.lookup name).isSome then none else some (setField name value fields)

/-- Adds an empty table to a list of tables, which is made if it is missing. -/
def appendTable (name : String) (fields : Fields) : Option Fields :=
  match fields.lookup name with
  | none => some (setField name (.list [.table []]) fields)
  | some (.list items) => some (setField name (.list (items ++ [.table []])) fields)
  | some _ => none

/-- What is known about the value that a key leads to. -/
inductive Mark where
  /-- It is a table that has been opened and cannot be opened again. -/
  | opened
  /-- It was written as a whole, and nothing in it can be changed. -/
  | closed
  deriving DecidableEq, Repr

/-- What is known about the values of a document. -/
abbrev Marks := List (Key × Mark)

/-- Whether the table at a key has been opened. -/
def Marks.isOpened (marks : Marks) (key : Key) : Bool := List.contains marks (key, .opened)

/-- Whether the value at a key is in, or is, a value that was written as a whole. -/
def Marks.isClosed (marks : Marks) (key : Key) : Bool :=
  marks.any fun m => m.2 == .closed && m.1.isPrefixOf key

/-- Forgets what is known about a value and what is in it. -/
def Marks.forget (marks : Marks) (key : Key) : Marks :=
  marks.filter fun m => !key.isPrefixOf m.1

/-- A document in the making. -/
structure Draft where
  /-- The values so far. -/
  fields : Fields := []
  /-- What is known about them. -/
  marks : Marks := []
  /-- Tables that have been entered by dotted names since the last header; from the next header on
  they count as opened. -/
  entered : List Key := []
  /-- The last header. -/
  header : Key := []

/-- Whether a value was written as a whole. -/
def isWhole : Toml → Bool
  | .list _ | .table _ => true
  | _ => false

/-- The proper starts of a key that are not empty. -/
def properStarts (key : Key) : List Key :=
  (List.range (key.length - 1)).map fun i => key.take (i + 1)

namespace Draft

/-- A document at the next header. -/
def settle (d : Draft) : Draft :=
  { d with marks := d.marks ++ d.entered.map (·, .opened), entered := [] }

/-- Opens a table. -/
def openTable (d : Draft) (key : Key) : Option Draft := do
  if d.marks.isOpened key || d.marks.isClosed key then none
  let fields ← atNest .throughLists some key d.fields
  return { d with fields, marks := (key, .opened) :: d.marks, header := key }

/-- Adds a table to a list of tables. What is known about the table before it does not hold for the
new one. -/
def addTable (d : Draft) (key : Key) : Option Draft := do
  if d.marks.isClosed key then none
  let name ← key.getLast?
  let fields ← atNest .throughLists (appendTable name) key.dropLast d.fields
  return { d with fields, marks := (key, .opened) :: d.marks.forget key, header := key }

/-- Sets a value below the last header. -/
def assign (d : Draft) (key : Key) (value : Toml) : Option Draft := do
  let entered := (properStarts key).map (d.header ++ ·)
  if entered.any d.marks.isOpened then none
  let parent := d.header ++ key.dropLast
  if d.marks.isClosed parent then none
  let name ← key.getLast?
  let fields ← atNest .throughLists (insertNew name value) parent d.fields
  let whole := if isWhole value then [(d.header ++ key, Mark.closed)] else []
  return { d with fields, marks := whole ++ d.marks, entered := d.entered ++ entered }

end Draft

/-- Sets a value in a table that is written in one line. -/
def assignInline (fields : Fields) (marks : Marks) (key : Key) (value : Toml) :
    Option (Fields × Marks) := do
  if marks.isClosed key then none
  let name ← key.getLast?
  let fields ← atNest .tablesOnly (insertNew name value) key.dropLast fields
  return (fields, if isWhole value then (key, .closed) :: marks else marks)

end FlagAudit.Toml
