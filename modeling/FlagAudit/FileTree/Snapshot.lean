import FlagAudit.FileTree.Edit
import FlagAudit.Json.Reader

/-!
# Snapshots of file trees

A snapshot is a file tree written down as JSON. A text or a list of bytes is a regular file, `null`
is a special file, and an object with one field is a link (`"link"`, with its target) or a directory
(`"directory"`, with its entries). Around the root of the tree stands an object that also says what
the working directory is.
-/

namespace FlagAudit.FileTree

/-- A byte of a snapshot. -/
def byteOfJson? : Json → Option UInt8
  | .int (.ofNat n) => if n < 256 then some (UInt8.ofNat n) else none
  | _ => none

mutual

/-- A node of a snapshot. -/
def nodeOfJson? : Json → Option Node
  | .null => some .special
  | .string text => some (.file text.toUTF8.toList)
  | .array items => (items.mapM byteOfJson?).map .file
  | .object [field] => nodeOfField? field
  | _ => none

/-- A link or a directory of a snapshot. -/
def nodeOfField? : String × Json → Option Node
  | (kind, .string target) => if kind == "link" then some (.link target) else none
  | (kind, .object fields) =>
    if kind == "directory" then (entriesOfFields? fields).map .directory else none
  | _ => none

/-- The entries of a directory of a snapshot. -/
def entriesOfFields? : List (String × Json) → Option (List (String × Node))
  | [] => some []
  | field :: fields => do
    let entry ← entryOfField? field
    return entry :: (← entriesOfFields? fields)

/-- An entry of a directory of a snapshot. -/
def entryOfField? : String × Json → Option (String × Node)
  | (name, value) => (nodeOfJson? value).map (name, ·)

end

/-- The file tree of a snapshot. The root has to be a directory, and the entries of its directories
have to have names. -/
def ofJson? (snapshot : Json) : Option FileTree := do
  let root ← nodeOfJson? (← snapshot.field? "root")
  if !root.isDirectory then none
  if proper : root.isProper then
    match ← snapshot.field? "cwd" with
    | .string cwd => return (⟨root, Path.normalize cwd, proper⟩ : FileTree).makeDirectory cwd
    | _ => none
  else none

/-- The file tree of a snapshot that is written as a text. -/
def ofText? (snapshot : String) : Option FileTree :=
  (Json.read snapshot.toList).toOption.bind ofJson?

end FlagAudit.FileTree
