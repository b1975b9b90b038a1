import FlagAudit.FileTree.Walk

/-!
# Changing a file tree

Files, directories, links and special files can be put into a tree and taken out of it. Directories
that are missing on the way are made.
-/

namespace FlagAudit.FileTree

/-- Follows some parts from a location and makes each directory that is missing. Gives the tree and
the location at the end. A part that is missing and cannot be a name is passed over. -/
def ensure : (root : Node) → Location → List String → Node × Location
  | root, location, [] => (root, location)
  | root, location, part :: rest =>
    match walk root true linkLimit location [part] with
    | .ok next => ensure root next rest
    | .error _ =>
      if isEntryName part then
        let next := location ++ [part]
        ensure (Node.put (.directory []) next root) next rest
      else ensure root location rest

/-- The directories that are made keep a tree proper, and the location at the end has names. -/
theorem isProper_ensure {root : Node} {location : Location} {parts : List String}
    (h : root.isProper = true) (hlocation : ∀ name ∈ location, isEntryName name = true) :
    (ensure root location parts).1.isProper = true ∧
      ∀ name ∈ (ensure root location parts).2, isEntryName name = true := by
  induction parts generalizing root location with
  | nil => exact ⟨h, hlocation⟩
  | cons part rest ih =>
    rw [ensure]
    split
    · next next hnext => exact ih h (isEntryName_of_walk h hnext hlocation)
    · split
      · next hpart =>
        have hnext : ∀ name ∈ location ++ [part], isEntryName name = true := by
          simpa [or_imp, forall_and] using And.intro hlocation hpart
        exact ih (Node.isProper_put rfl hnext h) hnext
      · exact ih h hlocation

/-- The parts of a path from the root of the tree that are not empty. -/
def absoluteParts (t : FileTree) (path : String) : List String :=
  (partsOf (Path.join t.cwd path)).filter (!·.isEmpty)

/-- A tree with a directory at a path. -/
def makeDirectory (t : FileTree) (path : String) : FileTree where
  root := (ensure t.root [] (t.absoluteParts path)).1
  cwd := t.cwd
  proper := (isProper_ensure t.proper (List.forall_mem_nil _)).1

/-- A tree with a node put at a location that has names. -/
def putAt (t : FileTree) (location : Location) (node : Node) (hnode : node.isProper = true)
    (hlocation : ∀ name ∈ location, isEntryName name = true) : FileTree where
  root := Node.put node location t.root
  cwd := t.cwd
  proper := Node.isProper_put hnode hlocation t.proper

/-- A tree with a node at a path, in place of what was there before. A path whose last part cannot
be a name leaves the tree alone, and so does a node that is not proper. -/
def place (t : FileTree) (path : String) (node : Node) : FileTree :=
  let parts := t.absoluteParts path
  let made := ensure t.root [] parts.dropLast
  have hmade := @isProper_ensure t.root [] parts.dropLast t.proper (List.forall_mem_nil _)
  match parts.getLast? with
  | some name =>
    if h : node.isProper = true ∧ isEntryName name = true then
      let t : FileTree := ⟨made.1, t.cwd, hmade.1⟩
      t.putAt (made.2 ++ [name]) node h.1 fun part hpart =>
        (List.mem_append.mp hpart).elim (hmade.2 part) fun hpart => List.mem_singleton.mp hpart ▸ h.2
    else t
  | none => t

/-- A tree with a regular file at a path. A link at the path is followed. -/
def write (t : FileTree) (path : String) (content : List UInt8) : FileTree :=
  match h : t.locate true path with
  | .ok location => t.putAt location (.file content) rfl (isEntryName_of_locate h)
  | .error _ => t.place path (.file content)

/-- A tree without what is at a path. A link at the path is removed itself. -/
def remove (t : FileTree) (path : String) : FileTree :=
  match t.locate false path with
  | .ok location => ⟨t.root.erase location, t.cwd, Node.isProper_erase t.proper⟩
  | .error _ => t

/-- A tree that only has the working directory and the null device. -/
def start (cwd : String) : FileTree :=
  let root := Node.directory [("dev", .directory [("null", .special)])]
  (⟨root, cwd, by decide⟩ : FileTree).makeDirectory cwd

end FlagAudit.FileTree
