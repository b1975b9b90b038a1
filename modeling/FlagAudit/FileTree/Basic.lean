import FlagAudit.Fields

/-!
# File trees

A file tree is a value: what a program can see of a file system, without clocks, owners and rights.
Its nodes are regular files, links, directories, and special files such as pipes and devices. The
entries of a directory have different names, and none of these can be taken for a path. A tree that
breaks this rule cannot be built: `FileTree` carries a proof of it, and `Node.put` and `Node.erase`
keep it.
-/

namespace FlagAudit

namespace FileTree

/-- A node of a file tree. -/
inductive Node where
  /-- A regular file with its bytes. -/
  | file (content : List UInt8)
  /-- A pipe or a device: neither a regular file nor a directory. -/
  | special
  /-- A link to another path. -/
  | link (target : String)
  /-- A directory with its entries and their names. -/
  | directory (entries : List (String × Node))
  deriving Repr, Inhabited

/-- Whether a text can be the name of an entry. -/
def isEntryName (name : String) : Bool :=
  name != "" && name != "." && name != ".." && !name.toList.contains '/' &&
    !name.toList.contains '\x00'

/-- Where a node is: the names of the entries on the way from the root, none of them a link. -/
abbrev Location := List String

namespace Node

/-- Whether the node is a regular file. -/
def isFile : Node → Bool
  | .file _ => true
  | _ => false

/-- Whether the node is a directory. -/
def isDirectory : Node → Bool
  | .directory _ => true
  | _ => false

/-- The entries of a directory; other nodes have none. -/
def entries : Node → List (String × Node)
  | .directory entries => entries
  | _ => []

/-- The node at a location. -/
def at? : Node → Location → Option Node
  | node, [] => some node
  | node, name :: rest =>
    match node.entries.lookup name with
    | some child => child.at? rest
    | none => none

/-- A tree with a node put at a location. Directories that are missing on the way are made. -/
def put (child : Node) : Location → Node → Node
  | [], _ => child
  | name :: rest, node =>
    let below := (node.entries.lookup name).getD (.directory [])
    .directory (setField name (put child rest below) node.entries)

/-- A tree without the node at a location. -/
def erase : Location → Node → Node
  | [], node => node
  | [name], node => .directory (node.entries.filter (·.1 != name))
  | name :: rest, node =>
    match node.entries.lookup name with
    | some below => .directory (setField name (erase rest below) node.entries)
    | none => node

/-! ### Proper trees -/

mutual

/-- Whether all directories of a tree have entries with names, and with different ones. -/
def isProper : Node → Bool
  | .directory entries => areProper entries
  | _ => true

/-- Whether the entries of a directory have names, and different ones, all the way down. -/
def areProper : List (String × Node) → Bool
  | [] => true
  | e :: es => isProperEntry e && !(es.map (·.1)).contains e.1 && areProper es

/-- Whether an entry of a directory has a name, and a proper tree below it. -/
def isProperEntry : String × Node → Bool
  | (name, node) => isEntryName name && node.isProper

end

theorem areProper_iff {entries : List (String × Node)} :
    areProper entries = true ↔ (entries.map (·.1)).Nodup ∧
      ∀ e ∈ entries, isEntryName e.1 = true ∧ e.2.isProper = true := by
  induction entries with
  | nil => simp [areProper]
  | cons e es ih =>
    obtain ⟨name, node⟩ := e
    simp only [areProper, isProperEntry, Bool.and_eq_true, Bool.not_eq_true', List.map_cons,
      List.nodup_cons, List.forall_mem_cons, ih, ← Bool.not_eq_true, List.contains_iff_mem]
    constructor
    · rintro ⟨⟨he, hne⟩, hnodup, hes⟩
      exact ⟨⟨hne, hnodup⟩, he, hes⟩
    · rintro ⟨⟨hne, hnodup⟩, he, hes⟩
      exact ⟨⟨he, hne⟩, hnodup, hes⟩

/-- The entries of a node in a proper tree. -/
theorem areProper_entries {node : Node} (h : node.isProper = true) :
    areProper node.entries = true := by
  cases node with
  | directory => exact h
  | _ => rfl

/-- What a directory has under a name has a name, and is proper. -/
theorem proper_of_lookup {node child : Node} {name : String} (h : node.isProper = true)
    (hchild : node.entries.lookup name = some child) :
    isEntryName name = true ∧ child.isProper = true :=
  (areProper_iff.mp (areProper_entries h)).2 _ (mem_of_lookup hchild)

/-- A proper tree with an entry that has a name and a proper tree below it. -/
theorem isProper_setField {node child : Node} {name : String} (h : node.isProper = true)
    (hname : isEntryName name = true) (hchild : child.isProper = true) :
    (Node.directory (setField name child node.entries)).isProper = true := by
  obtain ⟨hnodup, hentries⟩ := areProper_iff.mp (areProper_entries h)
  refine areProper_iff.mpr ⟨nodup_setField name child hnodup, fun e he => ?_⟩
  rcases mem_setField he with rfl | he
  · exact ⟨hname, hchild⟩
  · exact hentries e he

/-- Putting a proper tree at a location that has names keeps a tree proper. -/
theorem isProper_put {child : Node} (hchild : child.isProper = true) {location : Location}
    (hlocation : ∀ name ∈ location, isEntryName name = true) {node : Node}
    (h : node.isProper = true) : (put child location node).isProper = true := by
  induction location generalizing node with
  | nil => exact hchild
  | cons name rest ih =>
    rw [List.forall_mem_cons] at hlocation
    refine isProper_setField h hlocation.1 (ih hlocation.2 ?_)
    cases hbelow : node.entries.lookup name with
    | none => rfl
    | some below => exact (proper_of_lookup h hbelow).2

/-- Taking a node out keeps a tree proper. -/
theorem isProper_erase {location : Location} {node : Node} (h : node.isProper = true) :
    (erase location node).isProper = true := by
  fun_induction erase location node with
  | case1 => exact h
  | case2 node name =>
    obtain ⟨hnodup, hentries⟩ := areProper_iff.mp (areProper_entries h)
    refine areProper_iff.mpr ⟨hnodup.sublist (List.filter_sublist.map _), fun e he => ?_⟩
    exact hentries e (List.mem_filter.mp he).1
  | case3 node name rest _ below hbelow ih =>
    obtain ⟨hname, hbelow⟩ := proper_of_lookup h hbelow
    exact isProper_setField h hname (ih hbelow)
  | case4 => exact h

/-- A node of a proper tree is proper. -/
theorem isProper_of_at? {location : Location} {node child : Node} (h : node.isProper = true)
    (hchild : node.at? location = some child) : child.isProper = true := by
  induction location generalizing node with
  | nil => exact Option.some.inj hchild ▸ h
  | cons name rest ih =>
    rw [at?] at hchild
    split at hchild
    · next below hbelow => exact ih (proper_of_lookup h hbelow).2 hchild
    · cases hchild

end Node

end FileTree

/-- A file tree and the working directory from which relative paths are seen. -/
structure FileTree where
  /-- The root of the tree. -/
  root : FileTree.Node
  /-- The absolute path of the working directory, without links. -/
  cwd : String
  /-- The entries of directories have names, and different ones. -/
  proper : root.isProper = true
  deriving Repr

end FlagAudit
