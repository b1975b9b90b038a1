import FlagAudit.Failure
import FlagAudit.FileTree.Basic
import FlagAudit.Path

/-!
# Finding nodes by path

A path is walked part by part. A link on the way is replaced by its target, at most `linkLimit`
times; a double dot leads to the directory above, wherever the path has come from; a slash at the
end asks for a directory.
-/

namespace FlagAudit.FileTree

/-- How many links one path may go through. -/
def linkLimit : Nat := 40

/-- How many bytes the name of an entry may have. -/
def nameLimit : Nat := 255

/-- How many bytes a path may have. -/
def pathLimit : Nat := 4095

/-- The parts of a path as texts. -/
def partsOf (path : String) : List String := (Path.parts path).map String.ofList

/-- Walks from a location along some parts. `jump` says how to go on from a location when a link has
been replaced by the parts of its target. A link that is the last part is left alone unless it is to
be followed too. -/
def walkParts (root : Node) (followLast : Bool)
    (jump : Location → List String → Except Cause Location) :
    Location → List String → Except Cause Location
  | location, [] => .ok location
  | location, part :: rest =>
    match root.at? location with
    | some (.directory entries) =>
      if part == "" || part == "." then walkParts root followLast jump location rest
      else if part == ".." then walkParts root followLast jump location.dropLast rest
      else if nameLimit < part.utf8ByteSize then .error .refused
      else match entries.lookup part with
        | none => .error .missingFile
        | some (.link target) =>
          if rest.isEmpty && !followLast then .ok (location ++ [part])
          else jump (if Path.isAbsolute target then [] else location) (partsOf target ++ rest)
        | some _ => walkParts root followLast jump (location ++ [part]) rest
    | _ => .error .notDirectory

/-- Walks from a location along some parts, through at most `links` links. -/
def walk (root : Node) (followLast : Bool) :
    (links : Nat) → Location → List String → Except Cause Location
  | 0 => walkParts root followLast fun _ _ => .error .refused
  | links + 1 => walkParts root followLast (walk root followLast links)

/-- A walk from a location that has names leads to one that has names. -/
theorem isEntryName_of_walkParts {root : Node} (h : root.isProper = true) {followLast : Bool}
    {jump : Location → List String → Except Cause Location}
    (hjump : ∀ location parts location', jump location parts = .ok location' →
      (∀ name ∈ location, isEntryName name = true) → ∀ name ∈ location', isEntryName name = true)
    {location : Location} {parts : List String} {location' : Location}
    (hwalk : walkParts root followLast jump location parts = .ok location')
    (hlocation : ∀ name ∈ location, isEntryName name = true) :
    ∀ name ∈ location', isEntryName name = true := by
  induction parts generalizing location with
  | nil =>
    rw [walkParts] at hwalk
    cases hwalk
    exact hlocation
  | cons part rest ih =>
    rw [walkParts] at hwalk
    split at hwalk
    · next entries hentries =>
      have hpart : ∀ child, entries.lookup part = some child →
          ∀ name ∈ location ++ [part], isEntryName name = true := by
        intro child hchild name hname
        rcases List.mem_append.mp hname with hname | hname
        · exact hlocation name hname
        · rw [List.mem_singleton.mp hname]
          exact (Node.proper_of_lookup (Node.isProper_of_at? h hentries) hchild).1
      split at hwalk
      · exact ih hwalk hlocation
      split at hwalk
      · exact ih hwalk fun name hname => hlocation name (List.dropLast_subset _ hname)
      split at hwalk
      · cases hwalk
      split at hwalk
      · cases hwalk
      · next target htarget =>
        split at hwalk
        · cases hwalk
          exact hpart _ htarget
        · refine hjump _ _ _ hwalk ?_
          split
          · exact fun _ hname => absurd hname List.not_mem_nil
          · exact hlocation
      · next child _ hchild => exact ih hwalk (hpart _ hchild)
    · cases hwalk

theorem isEntryName_of_walk {root : Node} (h : root.isProper = true) {followLast : Bool}
    {links : Nat} {location : Location} {parts : List String} {location' : Location}
    (hwalk : walk root followLast links location parts = .ok location')
    (hlocation : ∀ name ∈ location, isEntryName name = true) :
    ∀ name ∈ location', isEntryName name = true := by
  induction links generalizing location parts location' with
  | zero =>
    refine isEntryName_of_walkParts h (fun _ _ _ hjump => ?_) hwalk hlocation
    cases hjump
  | succ links ih => exact isEntryName_of_walkParts h (fun _ _ _ => ih) hwalk hlocation

/-- The location that a path leads to. -/
def locate (t : FileTree) (followLast : Bool) (path : String) : Except Cause Location :=
  if path.isEmpty then .error .missingFile
  else if path.toList.contains '\x00' then .error (.badValue "embedded null byte")
  else if pathLimit < path.utf8ByteSize then .error .refused
  else walk t.root followLast linkLimit [] (partsOf (Path.join t.cwd path))

/-- A path leads to a location that has names. -/
theorem isEntryName_of_locate {t : FileTree} {followLast : Bool} {path : String}
    {location : Location} (h : t.locate followLast path = .ok location) :
    ∀ name ∈ location, isEntryName name = true := by
  unfold locate at h
  split at h
  · cases h
  split at h
  · cases h
  split at h
  · cases h
  exact isEntryName_of_walk t.proper h fun _ hname => absurd hname List.not_mem_nil

/-- The node that a path leads to, links followed. -/
def find (t : FileTree) (path : String) : Except Cause Node := do
  match t.root.at? (← t.locate true path) with
  | some node => .ok node
  | none => .error .missingFile

/-- Whether a path leads to a node. -/
def hasNode (t : FileTree) (path : String) : Bool := (t.find path).toOption.isSome

/-- Whether a path leads to a regular file. -/
def isFile (t : FileTree) (path : String) : Bool := (t.find path).toOption.any (·.isFile)

/-- The bytes of the file that a path leads to. A special file has none. -/
def readBytes (t : FileTree) (path : String) : Except Cause (List UInt8) := do
  match ← t.find path with
  | .file content => .ok content
  | .directory _ => .error .isDirectory
  | _ => .ok []

end FlagAudit.FileTree
