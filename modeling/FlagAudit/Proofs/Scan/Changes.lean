import Mathlib.Logic.Relation
import FlagAudit.Proofs.FileTree.Edit
import FlagAudit.Proofs.Scan

/-!
# Changes that a scan does not see

A scan does not list files that are not chosen, links and special files, and it does not look into
directories that are left out. However often such things are put into a directory, taken out of it or
replaced, a walk sees the same files, and they have the same content (`sameSights_of_changes`).
-/

namespace FlagAudit.Scan

open FileTree (Node Location)

variable {policy : Policy} {path : String} {node node' : Node} {place names : Location}

/-- A node of which a walk sees nothing, at a path. -/
inductive Hidden (policy : Policy) (path : String) : Node → Prop
  /-- A regular file that is not chosen. -/
  | file (content : List UInt8) (h : policy.chosen path = false) : Hidden policy path (.file content)
  /-- A pipe or a device. -/
  | special : Hidden policy path .special
  /-- A link, whatever it leads to. -/
  | link (target : String) : Hidden policy path (.link target)
  /-- A directory that has nothing in it. -/
  | empty : Hidden policy path (.directory [])

/-- One change below a node that has the given path. -/
inductive Change (policy : Policy) (path : String) (node : Node) : Node → Prop
  /-- Something of which nothing is seen is put into a directory, where nothing was or in place of
  something else of which nothing is seen. -/
  | put {dir : Location} {name : String} {entries : List (String × Node)} {child : Node}
      (hdir : node.at? dir = some (.directory entries))
      (hold : ∀ old, entries.lookup name = some old →
        Hidden policy (Path.below path (dir ++ [name])) old)
      (hnew : Hidden policy (Path.below path (dir ++ [name])) child) :
      Change policy path node (Node.put child (dir ++ [name]) node)
  /-- Something of which nothing is seen is taken out of a directory. -/
  | erase {dir : Location} {name : String} {entries : List (String × Node)} {old : Node}
      (hdir : node.at? dir = some (.directory entries)) (hname : entries.lookup name = some old)
      (hold : Hidden policy (Path.below path (dir ++ [name])) old) :
      Change policy path node (Node.erase (dir ++ [name]) node)
  /-- A directory that is left out gets other entries. -/
  | inside {dir : Location} {name : String} {entries old new : List (String × Node)}
      (hdir : node.at? dir = some (.directory entries))
      (hname : entries.lookup name = some (.directory old))
      (hpruned : policy.pruned (Path.below path (dir ++ [name])) = true) :
      Change policy path node (Node.put (.directory new) (dir ++ [name]) node)

/-! ### Places where nothing is seen -/

/-- Nothing is seen at and below a location. -/
def Unseen (policy : Policy) (path : String) (node : Node) (place : Location) : Prop :=
  ∀ rest, ¬ Sees policy path node (place ++ rest)

/-- A location with no node. -/
theorem unseen_of_none (h : node.at? place = none) : Unseen policy path node place := by
  rintro rest ⟨⟨content, hfile⟩, -, -⟩
  rw [FileTree.at?_append, h] at hfile
  cases hfile

theorem unseen_of_hidden {child : Node} (h : node.at? place = some child)
    (hhidden : Hidden policy (Path.below path place) child) : Unseen policy path node place := by
  rintro rest ⟨⟨content, hfile⟩, -, hchosen⟩
  rw [FileTree.at?_append, h, Option.bind_some] at hfile
  cases rest with
  | nil =>
    rw [Node.at?_nil, Option.some.injEq] at hfile
    subst hfile
    cases hhidden with
    | file _ hnot =>
      rw [List.append_nil, hnot] at hchosen
      cases hchosen
  | cons name rest =>
    rw [Node.at?_cons] at hfile
    cases hhidden <;> cases hfile

theorem unseen_of_pruned {entries : List (String × Node)} (hne : place ≠ [])
    (h : node.at? place = some (.directory entries))
    (hpruned : policy.pruned (Path.below path place) = true) : Unseen policy path node place := by
  rintro rest ⟨⟨content, hfile⟩, hentered, -⟩
  rw [FileTree.at?_append, h, Option.bind_some] at hfile
  have hrest : rest ≠ [] := by
    rintro rfl
    cases hfile
  -- The directory is itself on the way to what is below it, so a walk would have entered it.
  have hnot := hentered place.length (List.length_pos_of_ne_nil hne) (by
    rw [List.length_append]
    exact Nat.lt_add_of_pos_right (List.length_pos_of_ne_nil hrest))
  rw [List.take_left, hpruned] at hnot
  cases hnot

/-! ### What is seen before and after -/

/-- The same files are seen below two nodes, with the same content. -/
def SameSights (policy : Policy) (path : String) (node node' : Node) : Prop :=
  ∀ names content, (Sees policy path node names ∧ node.at? names = some (.file content)) ↔
    (Sees policy path node' names ∧ node'.at? names = some (.file content))

theorem SameSights.trans {node'' : Node} (h : SameSights policy path node node')
    (h' : SameSights policy path node' node'') : SameSights policy path node node'' :=
  fun names content => (h names content).trans (h' names content)

/-- Nodes that only differ where nothing is seen show the same files. -/
theorem sameSights_of_unseen (hsame : Node.SameOff place node node')
    (h : Unseen policy path node place) (h' : Unseen policy path node' place) :
    SameSights policy path node node' := by
  intro names content
  by_cases hplace : place <+: names
  · obtain ⟨rest, rfl⟩ := hplace
    exact iff_of_false (fun hsees => h rest hsees.1) fun hsees => h' rest hsees.1
  · have hfile := hsame names content hplace
    constructor
    · rintro ⟨⟨-, hentered, hchosen⟩, hcontent⟩
      exact ⟨⟨⟨content, hfile.mp hcontent⟩, hentered, hchosen⟩, hfile.mp hcontent⟩
    · rintro ⟨⟨-, hentered, hchosen⟩, hcontent⟩
      exact ⟨⟨⟨content, hfile.mpr hcontent⟩, hentered, hchosen⟩, hfile.mpr hcontent⟩

theorem at?_of_lookup {dir : Location} {name : String} {entries : List (String × Node)}
    (h : node.at? dir = some (.directory entries)) :
    node.at? (dir ++ [name]) = entries.lookup name :=
  Node.at?_append_singleton h name

/-- One change shows the same files. -/
theorem sameSights_of_change (h : Change policy path node node') :
    SameSights policy path node node' := by
  cases h with
  | @put dir name entries child hdir hold hnew =>
    refine sameSights_of_unseen (Node.sameOff_put hdir) ?_
      (unseen_of_hidden (Node.at?_put_self _ _ _) hnew)
    cases hname : entries.lookup name with
    | none => exact unseen_of_none ((at?_of_lookup hdir).trans hname)
    | some old => exact unseen_of_hidden ((at?_of_lookup hdir).trans hname) (hold old hname)
  | @erase dir name entries old hdir hname hold =>
    exact sameSights_of_unseen (Node.sameOff_erase hdir)
      (unseen_of_hidden ((at?_of_lookup hdir).trans hname) hold)
      (unseen_of_none (Node.at?_erase_self (List.concat_ne_nil _ _) _))
  | @inside dir name entries old new hdir hname hpruned =>
    have hne : dir ++ [name] ≠ [] := List.append_ne_nil_of_right_ne_nil _ (List.cons_ne_nil _ _)
    exact sameSights_of_unseen (Node.sameOff_put hdir)
      (unseen_of_pruned hne ((at?_of_lookup hdir).trans hname) hpruned)
      (unseen_of_pruned hne (Node.at?_put_self _ _ _) hpruned)

/-- Any number of changes shows the same files. -/
theorem sameSights_of_changes (h : Relation.ReflTransGen (Change policy path) node node') :
    SameSights policy path node node' := by
  induction h with
  | refl => exact fun _ _ => Iff.rfl
  | tail _ hchange ih => exact ih.trans (sameSights_of_change hchange)

/-! ### The files that are listed -/

theorem SameSights.sees_iff (h : SameSights policy path node node') :
    Sees policy path node names ↔ Sees policy path node' names := by
  constructor
  · intro hsees
    obtain ⟨content, hfile⟩ := hsees.isFile
    exact ((h names content).mp ⟨hsees, hfile⟩).1
  · intro hsees
    obtain ⟨content, hfile⟩ := hsees.isFile
    exact ((h names content).mpr ⟨hsees, hfile⟩).1

/-- Directories that show the same files give the same list. -/
theorem SameSights.files_eq {entries entries' : List (String × Node)}
    (h : SameSights policy path (.directory entries) (.directory entries'))
    (hproper : (Node.directory entries).isProper = true)
    (hproper' : (Node.directory entries').isProper = true) :
    ((inOrder (sightsBelow policy path entries)).filterMap Sight.file?).mergeSort =
      ((inOrder (sightsBelow policy path entries')).filterMap Sight.file?).mergeSort := by
  refine (pairwise_files hproper).eq_of_mem_iff (pairwise_files hproper') fun file => ?_
  simp only [mem_files_iff hproper, mem_files_iff hproper', h.sees_iff]

end FlagAudit.Scan
