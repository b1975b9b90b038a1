import FlagAudit.FileTree.Walk
import FlagAudit.Message
import FlagAudit.Selection

/-!
# Listing the files to look at

A scan walks through the directories below its root and lists the regular files that patterns
choose, in the order of their paths. Links and special files are left out. A directory that is
excluded is not entered at all.
-/

namespace FlagAudit.Scan

open FileTree (Node)

/-- What to choose and what to leave out. -/
structure Policy where
  /-- Whether a file is chosen. -/
  chosen : String → Bool
  /-- Whether a directory is left out. -/
  pruned : String → Bool

/-- The policy of include and exclude patterns below a root. -/
def Policy.ofPatterns (cwd root : String) (includes excludes : List String) : Policy where
  chosen := Selection.isChosen cwd root includes excludes
  pruned := Selection.isExcluded cwd root excludes true

/-- Something that a walk comes across. -/
inductive Sight where
  /-- A file that is chosen. -/
  | file (path : String)
  /-- A directory that is not entered. -/
  | pruned (path : String)
  deriving DecidableEq, Repr

/-- The path of a file that has been seen. -/
def Sight.file? : Sight → Option String
  | .file path => some path
  | .pruned _ => none

/-- What is seen below the entries of a directory, in the order of their names. -/
def inOrder (seen : List (String × List Sight)) : List Sight :=
  (seen.mergeSort fun a b => decide (a.1 ≤ b.1)).flatMap (·.2)

mutual

/-- What a walk sees at a node. -/
def sights (policy : Policy) (path : String) : Node → List Sight
  | .directory entries =>
    if policy.pruned path then [.pruned path]
    else inOrder (sightsBelow policy path entries)
  | .file _ => if policy.chosen path then [.file path] else []
  | .link _ | .special => []

/-- What a walk sees at each entry of a directory. -/
def sightsBelow (policy : Policy) (path : String) :
    List (String × Node) → List (String × List Sight)
  | [] => []
  | e :: es => sightsAt policy path e :: sightsBelow policy path es

/-- What a walk sees at one entry of a directory. -/
def sightsAt (policy : Policy) (path : String) : String × Node → String × List Sight
  | (name, node) => (name, sights policy (Path.join path name) node)

end

/-- Reports the directories that are not entered. -/
def reportPruned (seen : List Sight) : Reporting Unit :=
  modify (· ++ seen.filterMap fun
    | .pruned path => some ⟨.debug, "Pruned directory: " ++ path⟩
    | .file _ => none)

/-- The files below a root that patterns choose. A root that is a file is seen from the directory
that it is in; other roots that are not directories cannot be listed. -/
def files (t : FileTree) (root : String) (includes excludes : List String) :
    Audit (List String) := do
  match t.find root with
  | .error _ => throw (.scan ("Root path does not exist: " ++ root) root none)
  | .ok (.file _) =>
    let dir := if (Path.parent root).isEmpty then "." else Path.parent root
    return if Selection.isChosen t.cwd dir includes excludes root then [root] else []
  | .ok (.directory entries) =>
    let policy := Policy.ofPatterns t.cwd root includes excludes
    let seen := inOrder (sightsBelow policy root entries)
    reportPruned seen
    return (seen.filterMap Sight.file?).mergeSort
  | .ok _ =>
    throw (.scan ("Failed to scan directory: " ++ root) root (some .notDirectory))

end FlagAudit.Scan
