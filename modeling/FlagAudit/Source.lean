import FlagAudit.FileTree.Walk
import FlagAudit.Text.Newlines
import FlagAudit.Text.Utf8

/-!
# Reading text files
-/

namespace FlagAudit

/-- The text that the bytes of a file stand for, with each line ended by a line feed. -/
def Text.ofBytes (bytes : List UInt8) : Except Cause (List Char) :=
  match Text.Utf8.decode bytes with
  | some s => .ok (Text.unifyNewlines s)
  | none => .error .notUtf8

/-- The text that the file at a path holds, with each line ended by a line feed. -/
def FileTree.readText (t : FileTree) (path : String) : Except Cause (List Char) := do
  Text.ofBytes (← t.readBytes path)

end FlagAudit
