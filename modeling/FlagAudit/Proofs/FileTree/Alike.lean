import Mathlib.Data.List.Nodup
import FlagAudit.FileTree.Walk

/-!
# Trees that are the same but for what a path cannot tell

A view blinds out a part of a node, and two trees are the same by it if they have the same views at the same
locations. With the outline of a node, which has no bytes of files and no entries of directories, a path leads
to the same location in both, or fails for the same cause (`locate_sameOutline`). With its label, which has the
bytes, the trees are alike: they differ in nothing but the order in which the entries of directories stand. In
each view that shows at least outlines, a path leads to nodes that are the same in this view (`find_sameBy`).
-/

namespace FlagAudit.FileTree

namespace Node

/-- Induction over the nodes of a tree: a property of everything in a directory passes on to it. -/
@[elab_as_elim]
theorem induct {motive : Node → Prop} (file : ∀ content, motive (.file content))
    (special : motive .special) (link : ∀ target, motive (.link target))
    (directory : ∀ entries : List (String × Node),
      (∀ e ∈ entries, motive e.2) → motive (.directory entries)) : ∀ node, motive node
  | .file content => file content
  | .special => special
  | .link target => link target
  | .directory entries => directory entries fun e he =>
      have : sizeOf e.2 < 1 + sizeOf entries := by
        have hlt := List.sizeOf_lt_of_mem he
        obtain ⟨name, node⟩ := e
        rw [Prod.mk.sizeOf_spec] at hlt
        change sizeOf node < 1 + sizeOf entries
        omega
      induct file special link directory e.2

/-! ### Entries -/

@[simp]
theorem at?_nil (node : Node) : node.at? [] = some node := by rw [at?]

theorem at?_cons (node : Node) (name : String) (rest : Location) :
    node.at? (name :: rest) = (node.entries.lookup name).bind (·.at? rest) := by
  rw [at?]
  cases node.entries.lookup name <;> rfl

theorem at?_append_singleton {node child : Node} {location : Location}
    (h : node.at? location = some child) (name : String) :
    node.at? (location ++ [name]) = child.entries.lookup name := by
  induction location generalizing node with
  | nil =>
    cases h
    rw [List.nil_append, at?_cons]
    cases child.entries.lookup name <;> simp
  | cons first rest ih =>
    rw [at?_cons] at h
    obtain ⟨below, hbelow, h⟩ := Option.bind_eq_some_iff.mp h
    rw [List.cons_append, at?_cons, hbelow, Option.bind_some, ih h]

/-- In a proper directory, each entry is found under its name. -/
theorem lookup_eq_some_iff {node child : Node} {name : String} (h : node.isProper = true) :
    node.entries.lookup name = some child ↔ (name, child) ∈ node.entries := by
  constructor
  · exact mem_of_lookup
  · intro hmem
    have hnodup := (areProper_iff.mp (areProper_entries h)).1
    generalize node.entries = entries at hmem hnodup
    induction entries with
    | nil => cases hmem
    | cons e es ih =>
      obtain ⟨first, node⟩ := e
      rw [List.map_cons, List.nodup_cons] at hnodup
      rcases List.mem_cons.mp hmem with heq | hrest
      · cases heq
        exact List.lookup_cons_self
      · have hne : name ≠ first := by
          rintro rfl
          exact hnodup.1 (List.mem_map.mpr ⟨(name, child), hrest, rfl⟩)
        rw [List.lookup_cons, beq_false_of_ne hne]
        exact ih hrest hnodup.2

/-- The names on the way to a node of a proper tree. -/
theorem isEntryName_of_at? {location : Location} {node child : Node} (h : node.isProper = true)
    (hchild : node.at? location = some child) : ∀ name ∈ location, isEntryName name = true := by
  induction location generalizing node with
  | nil => exact List.forall_mem_nil _
  | cons name rest ih =>
    rw [at?_cons] at hchild
    obtain ⟨below, hbelow, hchild⟩ := Option.bind_eq_some_iff.mp hchild
    obtain ⟨hname, hproper⟩ := proper_of_lookup h hbelow
    exact List.forall_mem_cons.mpr ⟨hname, ih hproper hchild⟩

/-- All names of entries at and below a node have a property. -/
def AllNames (p : String → Prop) (node : Node) : Prop :=
  ∀ names child, node.at? names = some child → ∀ name ∈ names, p name

/-- It is enough to look at the entries of a node and below them. -/
theorem allNames_of_entries {p : String → Prop} {node : Node}
    (h : ∀ e ∈ node.entries, p e.1 ∧ AllNames p e.2) : AllNames p node := by
  intro names child hchild name hname
  cases names with
  | nil => cases hname
  | cons first rest =>
    rw [at?_cons] at hchild
    obtain ⟨below, hbelow, hchild⟩ := Option.bind_eq_some_iff.mp hchild
    obtain ⟨hfirst, hrest⟩ := h _ (mem_of_lookup hbelow)
    rcases List.mem_cons.mp hname with rfl | hname
    · exact hfirst
    · exact hrest rest child hchild name hname

/-! ### Nodes that are the same in some view -/

/-- What a view shows of the nodes below two nodes is the same at the same locations. -/
def SameBy (view : Node → Node) (a b : Node) : Prop :=
  ∀ location, (a.at? location).map view = (b.at? location).map view

variable {view : Node → Node} {a b x : Node} {location : Location}

theorem SameBy.symm (h : SameBy view a b) : SameBy view b a := fun location => (h location).symm

theorem SameBy.view_eq (h : SameBy view a b) : view a = view b := by
  simpa using h []

/-- Where there is a node below the one, there is one below the other, and the two are the same in the view. -/
theorem SameBy.at? (h : SameBy view a b) (hx : a.at? location = some x) :
    ∃ y, b.at? location = some y ∧ SameBy view x y := by
  induction location generalizing a b with
  | nil =>
    cases hx
    exact ⟨b, at?_nil b, h⟩
  | cons name rest ih =>
    rw [at?_cons] at hx
    obtain ⟨child, hchild, hx⟩ := Option.bind_eq_some_iff.mp hx
    obtain ⟨child', hchild'⟩ : ∃ child', b.entries.lookup name = some child' := by
      have hname := h [name]
      simp only [at?_cons, hchild, Option.bind_some, at?_nil, Option.map_some] at hname
      cases hb : b.entries.lookup name with
      | none => simp [hb] at hname
      | some child' => exact ⟨child', rfl⟩
    have hbelow : SameBy view child child' := by
      intro location
      simpa only [at?_cons, hchild, hchild', Option.bind_some] using h (name :: location)
    obtain ⟨y, hy, hxy⟩ := ih hbelow hx
    refine ⟨y, ?_, hxy⟩
    rw [at?_cons, hchild', Option.bind_some, hy]

/-- What is missing below the one is missing below the other. -/
theorem SameBy.at?_none (h : SameBy view a b) (ha : a.at? location = none) : b.at? location = none := by
  have hb := h location
  rwa [ha, Option.map_none, eq_comm, Option.map_eq_none_iff] at hb

/-! ### Outlines -/

/-- A node without what is below it or in it. -/
def outline : Node → Node
  | .directory _ => .directory []
  | .file _ => .file []
  | node => node

theorem SameBy.directory {entries : List (String × Node)} (h : SameBy outline (.directory entries) b) :
    ∃ entries', b = .directory entries' := by
  have houtline := h.view_eq
  cases b with
  | directory entries' => exact ⟨entries', rfl⟩
  | _ => cases houtline

theorem SameBy.file {content : List UInt8} (h : SameBy outline (.file content) b) :
    ∃ content', b = .file content' := by
  have houtline := h.view_eq
  cases b with
  | file content' => exact ⟨content', rfl⟩
  | _ => cases houtline

/-- A link or a special file has nothing but an outline. -/
theorem SameBy.eq (h : SameBy outline a b) (hfile : a.isFile = false) (hdirectory : a.isDirectory = false) :
    b = a := by
  have houtline := h.view_eq
  cases a with
  | directory => cases hdirectory
  | file => cases hfile
  | _ => cases b <;> first | exact houtline.symm | cases houtline

/-! ### Alike nodes -/

/-- A node without what is below it. -/
def label : Node → Node
  | .directory _ => .directory []
  | node => node

/-- Two nodes are alike if the same nodes are at the same locations below them. -/
def Alike (a b : Node) : Prop :=
  ∀ location, (a.at? location).map label = (b.at? location).map label

theorem outline_label (node : Node) : node.label.outline = node.outline := by cases node <;> rfl

/-- Alike nodes have the same outlines. -/
theorem Alike.sameOutline (h : Alike a b) : SameBy outline a b := by
  intro location
  have hlabels := congrArg (Option.map outline) (h location)
  simpa only [Option.map_map, Function.comp_def, outline_label] using hlabels

/-- A node that is like a directory is a directory. -/
theorem Alike.directory {entries : List (String × Node)} (h : Alike (.directory entries) b) :
    ∃ entries', b = .directory entries' := h.sameOutline.directory

end Node

open Node (Alike SameBy outline)

/-! ### Walks -/

theorem walkParts_sameOutline {a b : Node} (h : SameBy outline a b) (followLast : Bool)
    (jump : Location → List String → Except Cause Location) (location : Location)
    (parts : List String) :
    walkParts a followLast jump location parts = walkParts b followLast jump location parts := by
  induction parts generalizing location with
  | nil => simp only [walkParts]
  | cons part rest ih =>
    rw [walkParts, walkParts]
    cases ha : a.at? location with
    | none => rw [h.at?_none ha]
    | some x =>
      obtain ⟨y, hb, hxy⟩ := h.at? ha
      rw [hb]
      cases x with
      | directory entries =>
        obtain ⟨entries', rfl⟩ := hxy.directory
        simp only [ih]
        cases hchild : entries.lookup part with
        | none =>
          have hpart := Node.at?_append_singleton ha part
          rw [show (Node.directory entries).entries = entries from rfl, hchild] at hpart
          have hpart' := h.at?_none hpart
          rw [Node.at?_append_singleton hb part] at hpart'
          rw [show entries'.lookup part = none from hpart']
        | some child =>
          have hpart := Node.at?_append_singleton ha part
          rw [show (Node.directory entries).entries = entries from rfl, hchild] at hpart
          obtain ⟨child', hpart', hbelow⟩ := h.at? hpart
          rw [Node.at?_append_singleton hb part] at hpart'
          rw [show entries'.lookup part = some child' from hpart']
          cases child with
          | directory =>
            obtain ⟨_, rfl⟩ := hbelow.directory
            rfl
          | file =>
            obtain ⟨_, rfl⟩ := hbelow.file
            rfl
          | _ => rw [hbelow.eq rfl rfl]
      | file =>
        obtain ⟨_, rfl⟩ := hxy.file
        rfl
      | _ => rw [hxy.eq rfl rfl]

theorem walk_sameOutline {a b : Node} (h : SameBy outline a b) (followLast : Bool) (links : Nat) :
    walk a followLast links = walk b followLast links := by
  induction links with
  | zero =>
    funext location parts
    exact walkParts_sameOutline h followLast _ location parts
  | succ links ih =>
    funext location parts
    rw [walk, walk, ih]
    exact walkParts_sameOutline h followLast _ location parts

/-- Where a path leads does not depend on what is in the files. -/
theorem locate_sameOutline {t t' : FileTree} (hcwd : t.cwd = t'.cwd) (h : SameBy outline t.root t'.root)
    (followLast : Bool) (path : String) : t.locate followLast path = t'.locate followLast path := by
  simp only [locate, hcwd, walk_sameOutline h]

/-- A path leads to the node at its location. -/
theorem find_eq (t : FileTree) (path : String) :
    t.find path = (t.locate true path).bind fun location =>
      (t.root.at? location).elim (.error .missingFile) .ok := by
  rw [find]
  cases t.locate true path with
  | error => rfl
  | ok location => cases hnode : t.root.at? location <;> simp [bind, Except.bind, hnode]

/-- A path leads to nodes that are the same in a view that shows at least outlines, or nowhere in both
trees. -/
theorem find_sameBy {view : Node → Node} {t t' : FileTree} (hcwd : t.cwd = t'.cwd)
    (houtline : SameBy outline t.root t'.root) (h : SameBy view t.root t'.root) (path : String) :
    (∃ a b, t.find path = .ok a ∧ t'.find path = .ok b ∧ SameBy view a b) ∨
      ∃ c, t.find path = .error c ∧ t'.find path = .error c := by
  rw [find_eq, find_eq, ← locate_sameOutline hcwd houtline]
  cases t.locate true path with
  | error c => exact .inr ⟨c, rfl, rfl⟩
  | ok location =>
    cases ha : t.root.at? location with
    | none =>
      refine .inr ⟨.missingFile, ?_, ?_⟩
      · simp [Except.bind, ha]
      · simp [Except.bind, h.at?_none ha]
    | some a =>
      obtain ⟨b, hb, hab⟩ := h.at? ha
      exact .inl ⟨a, b, by simp [Except.bind, ha], by simp [Except.bind, hb], hab⟩

/-- What a path leads to is proper. -/
theorem isProper_of_find {t : FileTree} {path : String} {node : Node} (h : t.find path = .ok node) :
    node.isProper = true := by
  rw [find_eq] at h
  cases hlocation : t.locate true path with
  | error c => simp [Except.bind, hlocation] at h
  | ok location =>
    cases hnode : t.root.at? location with
    | none => simp [Except.bind, hlocation, hnode] at h
    | some child =>
      have hchild : child = node := by simpa [Except.bind, hlocation, hnode] using h
      exact hchild ▸ Node.isProper_of_at? t.proper hnode

end FlagAudit.FileTree
