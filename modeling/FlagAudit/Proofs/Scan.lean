import Mathlib.Data.List.Sort
import Mathlib.Data.String.Basic
import FlagAudit.Proofs.FileTree.Alike
import FlagAudit.Proofs.Path
import FlagAudit.Proofs.Sorted
import FlagAudit.Scan

/-!
# What a scan lists

A scan walks through the directories below its root in the order of their entries, and sorts what it
has found at the end. It lists the regular files that can be reached through directories which are
not excluded and that are chosen themselves: all of them, each once, in the order of their paths.
The order in which the entries of a directory stand has no bearing on it.
-/

namespace FlagAudit.Scan

open FileTree (Node Location isEntryName)
open FileTree.Node (Alike SameBy outline)

variable {policy : Policy}

/-! ### Sights -/

theorem sightsBelow_eq (path : String) (entries : List (String × Node)) :
    sightsBelow policy path entries =
      entries.map fun e => (e.1, sights policy (Path.join path e.1) e.2) := by
  induction entries with
  | nil => rw [sightsBelow, List.map_nil]
  | cons e es ih =>
    obtain ⟨name, node⟩ := e
    rw [sightsBelow, ih, sightsAt, List.map_cons]

theorem mem_inOrder {s : Sight} {seen : List (String × List Sight)} :
    s ∈ inOrder seen ↔ ∃ e ∈ seen, s ∈ e.2 := by
  simp [inOrder]

/-- What is seen below a directory is what is seen at one of its entries. -/
theorem mem_below_iff {s : Sight} {path : String} {entries : List (String × Node)} :
    s ∈ inOrder (sightsBelow policy path entries) ↔
      ∃ name child, (name, child) ∈ entries ∧ s ∈ sights policy (Path.join path name) child := by
  simp [mem_inOrder, sightsBelow_eq]

/-! ### Files that are seen -/

/-- A regular file is at these names below a node that has the given path, no directory on the way
to it is left out, and the file is chosen. -/
structure Sees (policy : Policy) (path : String) (node : Node) (names : Location) : Prop where
  /-- The file. -/
  isFile : ∃ content, node.at? names = some (.file content)
  /-- The directories on the way. -/
  entered : ∀ k, 0 < k → k < names.length →
    policy.pruned (Path.below path (names.take k)) = false
  /-- The file is chosen. -/
  chosen : policy.chosen (Path.below path names) = true

theorem sees_file_iff {path : String} {content : List UInt8} {names : Location} :
    Sees policy path (.file content) names ↔ names = [] ∧ policy.chosen path = true := by
  constructor
  · rintro ⟨⟨content', hfile⟩, -, hchosen⟩
    cases names with
    | nil => exact ⟨rfl, hchosen⟩
    | cons name rest => simp [Node.at?_cons, Node.entries] at hfile
  · rintro ⟨rfl, hchosen⟩
    exact ⟨⟨content, Node.at?_nil _⟩, fun _ _ hk => absurd hk (Nat.not_lt_zero _), hchosen⟩

/-- A file in a directory is seen through one of its entries; a directory is left out there, or
entered. -/
theorem sees_directory_iff {path : String} {entries : List (String × Node)} {names : Location}
    (h : (Node.directory entries).isProper = true) :
    Sees policy path (.directory entries) names ↔
      ∃ name child rest, names = name :: rest ∧ (name, child) ∈ entries ∧
        (child.isDirectory = true → policy.pruned (Path.join path name) = false) ∧
        Sees policy (Path.join path name) child rest := by
  constructor
  · rintro ⟨⟨content, hfile⟩, hentered, hchosen⟩
    cases names with
    | nil => simp at hfile
    | cons name rest =>
      rw [Node.at?_cons] at hfile
      obtain ⟨child, hchild, hfile⟩ := Option.bind_eq_some_iff.mp hfile
      refine ⟨name, child, rest, rfl, (Node.lookup_eq_some_iff h).mp hchild, ?_, ?_⟩
      · intro hdirectory
        have hrest : rest ≠ [] := by
          rintro rfl
          rw [Node.at?_nil] at hfile
          cases hfile
          cases hdirectory
        have hlength := List.length_pos_iff.mpr hrest
        exact hentered 1 Nat.one_pos (by simpa using hlength)
      · refine ⟨⟨content, hfile⟩, fun k _ hk => ?_, hchosen⟩
        exact hentered (k + 1) (Nat.succ_pos k) (Nat.succ_lt_succ hk)
  · rintro ⟨name, child, rest, rfl, hchild, hpruned, ⟨content, hfile⟩, hentered, hchosen⟩
    refine ⟨⟨content, ?_⟩, fun k hpos hk => ?_, hchosen⟩
    · rw [Node.at?_cons, (Node.lookup_eq_some_iff h).mpr hchild, Option.bind_some, hfile]
    · obtain ⟨k, rfl⟩ := Nat.exists_eq_add_of_lt hpos
      rw [Nat.zero_add, List.take_succ_cons, Path.below_cons]
      cases k with
      | zero =>
        refine hpruned ?_
        cases rest with
        | nil => simp at hk
        | cons next rest =>
          cases child with
          | directory => rfl
          | _ => simp [Node.at?_cons, Node.entries] at hfile
      | succ k => exact hentered (k + 1) (Nat.succ_pos k) (by simpa using hk)

/-- At and below a node that is neither a file nor a directory, nothing is seen. -/
theorem not_sees {path : String} {node : Node} (hfile : node.isFile = false)
    (hdirectory : node.isDirectory = false) (names : Location) :
    ¬ Sees policy path node names := by
  rintro ⟨⟨content, h⟩, -, -⟩
  cases names with
  | nil =>
    rw [Node.at?_nil] at h
    cases h
    cases hfile
  | cons name rest =>
    cases node with
    | directory => cases hdirectory
    | _ => simp [Node.at?_cons, Node.entries] at h

/-- A walk sees exactly the files that can be seen at and below a node. -/
def SeesAll (policy : Policy) (node : Node) : Prop :=
  ∀ path file, .file file ∈ sights policy path node ↔
    (node.isDirectory = true → policy.pruned path = false) ∧
      ∃ names, Sees policy path node names ∧ file = Path.below path names

theorem seesAll_of_no_sights {node : Node} (hfile : node.isFile = false)
    (hdirectory : node.isDirectory = false) (h : ∀ path, sights policy path node = []) :
    SeesAll policy node := by
  intro path file
  rw [h]
  refine iff_of_false List.not_mem_nil ?_
  rintro ⟨-, names, hsees, -⟩
  exact not_sees hfile hdirectory names hsees

/-- Below a directory exactly the files are seen that can be seen, if that is so below its
entries. -/
theorem mem_below_file_iff {path file : String} {entries : List (String × Node)}
    (h : (Node.directory entries).isProper = true)
    (hentries : ∀ e ∈ entries, SeesAll policy e.2) :
    .file file ∈ inOrder (sightsBelow policy path entries) ↔
      ∃ names, Sees policy path (.directory entries) names ∧ file = Path.below path names := by
  rw [mem_below_iff]
  constructor
  · rintro ⟨name, child, hchild, hfile⟩
    obtain ⟨hentered, names, hsees, rfl⟩ := (hentries _ hchild _ _).mp hfile
    refine ⟨name :: names, (sees_directory_iff h).mpr ?_, rfl⟩
    exact ⟨name, child, names, rfl, hchild, hentered, hsees⟩
  · rintro ⟨names, hsees, rfl⟩
    obtain ⟨name, child, rest, rfl, hchild, hentered, hsees⟩ := (sees_directory_iff h).mp hsees
    exact ⟨name, child, hchild, (hentries _ hchild _ _).mpr ⟨hentered, rest, hsees, rfl⟩⟩

/-- A walk sees exactly the files that can be seen. -/
theorem seesAll {node : Node} (h : node.isProper = true) : SeesAll policy node := by
  induction node using Node.induct with
  | file content =>
    intro path file
    rw [sights]
    simp only [sees_file_iff, Node.isDirectory, Bool.false_eq_true, false_implies, true_and]
    constructor
    · intro hmem
      split at hmem
      · next hchosen =>
        cases List.mem_singleton.mp hmem
        exact ⟨[], ⟨rfl, hchosen⟩, rfl⟩
      · cases hmem
    · rintro ⟨names, ⟨rfl, hchosen⟩, rfl⟩
      simp [hchosen]
  | special => exact seesAll_of_no_sights rfl rfl fun path => by rw [sights]
  | link target => exact seesAll_of_no_sights rfl rfl fun path => by rw [sights]
  | directory entries ih =>
    intro path file
    have hentries : ∀ e ∈ entries, SeesAll policy e.2 := fun e he =>
      ih e he ((Node.areProper_iff.mp h).2 e he).2
    rw [sights]
    split
    · next hpruned => simp [hpruned, Node.isDirectory]
    · next hpruned => simp [hpruned, mem_below_file_iff h hentries]

/-! ### Each file once -/

/-- The files among some sights. -/
theorem mem_filesOf {seen : List Sight} {file : String} :
    file ∈ seen.filterMap Sight.file? ↔ .file file ∈ seen := by
  rw [List.mem_filterMap]
  constructor
  · rintro ⟨s, hs, hfile⟩
    cases s with
    | file path =>
      cases hfile
      exact hs
    | pruned path => cases hfile
  · intro hs
    exact ⟨_, hs, rfl⟩

/-- The names of what is seen are names of entries. -/
theorem Sees.isEntryName {path : String} {node : Node} {names : Location}
    (h : node.isProper = true) (hsees : Sees policy path node names) :
    ∀ name ∈ names, isEntryName name = true := by
  obtain ⟨⟨content, hfile⟩, -, -⟩ := hsees
  exact Node.isEntryName_of_at? h hfile

/-- What is seen below two entries of a directory is different. -/
theorem disjoint_files {path : String} {name name' : String} {child child' : Node}
    (hne : name ≠ name') (hname : isEntryName name = true) (hname' : isEntryName name' = true)
    (hchild : child.isProper = true) (hchild' : child'.isProper = true) :
    List.Disjoint ((sights policy (Path.join path name) child).filterMap Sight.file?)
      ((sights policy (Path.join path name') child').filterMap Sight.file?) := by
  intro file hfile hfile'
  obtain ⟨-, names, hsees, rfl⟩ := (seesAll hchild _ _).mp (mem_filesOf.mp hfile)
  obtain ⟨-, names', hsees', heq⟩ := (seesAll hchild' _ _).mp (mem_filesOf.mp hfile')
  rw [← Path.below_cons, ← Path.below_cons] at heq
  have hnames := Path.below_injective (List.cons_ne_nil _ _) (List.cons_ne_nil _ _)
    (List.forall_mem_cons.mpr ⟨hname, hsees.isEntryName hchild⟩)
    (List.forall_mem_cons.mpr ⟨hname', hsees'.isEntryName hchild'⟩) heq
  exact hne (List.cons.inj hnames).1

/-- No file is seen twice below a directory, if none is below its entries. -/
theorem nodup_below {path : String} {entries : List (String × Node)}
    (h : (Node.directory entries).isProper = true)
    (hentries : ∀ e ∈ entries, ∀ path, ((sights policy path e.2).filterMap Sight.file?).Nodup) :
    ((inOrder (sightsBelow policy path entries)).filterMap Sight.file?).Nodup := by
  obtain ⟨hnames, hproper⟩ := Node.areProper_iff.mp h
  have hperm : ((inOrder (sightsBelow policy path entries)).filterMap Sight.file?).Perm
      (entries.flatMap fun e =>
        (sights policy (Path.join path e.1) e.2).filterMap Sight.file?) := by
    have hentries : (sightsBelow policy path entries).flatMap (·.2) =
        entries.flatMap fun e => sights policy (Path.join path e.1) e.2 := by
      rw [sightsBelow_eq, List.flatMap_map]
    rw [inOrder, ← List.filterMap_flatMap, ← hentries]
    exact ((List.mergeSort_perm _ _).flatMap_right _).filterMap _
  rw [hperm.nodup_iff, List.nodup_flatMap]
  refine ⟨fun e he => hentries e he _, ?_⟩
  refine (List.pairwise_map.mp hnames).imp_of_mem fun he he' hne => ?_
  exact disjoint_files hne (hproper _ he).1 (hproper _ he').1 (hproper _ he).2 (hproper _ he').2

/-- No file is seen twice. -/
theorem nodup_sights {node : Node} (h : node.isProper = true) (path : String) :
    ((sights policy path node).filterMap Sight.file?).Nodup := by
  induction node using Node.induct generalizing path with
  | file content =>
    rw [sights]
    split <;> simp [Sight.file?]
  | special => simp [sights]
  | link target => simp [sights]
  | directory entries ih =>
    rw [sights]
    split
    · exact List.nodup_nil
    · exact nodup_below h fun e he => ih e he ((Node.areProper_iff.mp h).2 e he).2

/-! ### The order of entries -/

/-- What a walk sees does not depend on the order in which entries stand. -/
theorem inOrder_eq_of_perm {seen seen' : List (String × List Sight)} (h : seen.Perm seen')
    (hnodup : (seen.map (·.1)).Nodup) : inOrder seen = inOrder seen' := by
  have hsort : (seen.mergeSort fun a b => decide (a.1 ≤ b.1)) =
      seen'.mergeSort fun a b => decide (a.1 ≤ b.1) :=
    mergeSort_keys_eq (h.trans (List.mergeSort_perm _ _).symm) (pairwise_mergeSort_keys seen')
      fun a ha b hb heq => List.inj_on_of_nodup_map hnodup ha hb heq
  rw [inOrder, inOrder, hsort]

/-- Directories that are the same in a view have entries that are the same, under the same names. -/
theorem mem_entries_sameBy {view : Node → Node} {entries entries' : List (String × Node)}
    (h : (Node.directory entries).isProper = true)
    (h' : (Node.directory entries').isProper = true)
    (hsame : SameBy view (.directory entries) (.directory entries')) {name : String} {child : Node}
    (hchild : (name, child) ∈ entries) :
    ∃ child', (name, child') ∈ entries' ∧ SameBy view child child' := by
  have hat : (Node.directory entries).at? [name] = some child := by
    rw [Node.at?_cons, (Node.lookup_eq_some_iff h).mpr hchild, Option.bind_some, Node.at?_nil]
  obtain ⟨child', hat', hbelow⟩ := hsame.at? hat
  rw [Node.at?_cons] at hat'
  obtain ⟨found, hfound, hat'⟩ := Option.bind_eq_some_iff.mp hat'
  rw [Node.at?_nil] at hat'
  cases hat'
  exact ⟨child', (Node.lookup_eq_some_iff h').mp hfound, hbelow⟩

/-- Walks see the same below directories that are the same in a view, if they do so at their entries. -/
theorem below_sameBy {view : Node → Node} {entries entries' : List (String × Node)}
    (h : (Node.directory entries).isProper = true)
    (h' : (Node.directory entries').isProper = true)
    (hsame : SameBy view (.directory entries) (.directory entries'))
    (hsights : ∀ e ∈ entries, ∀ child, child.isProper = true → SameBy view e.2 child →
      ∀ path, sights policy path e.2 = sights policy path child) (path : String) :
    inOrder (sightsBelow policy path entries) = inOrder (sightsBelow policy path entries') := by
  obtain ⟨hnodup, hproper⟩ := Node.areProper_iff.mp h
  obtain ⟨hnodup', hproper'⟩ := Node.areProper_iff.mp h'
  have hnames : ∀ es : List (String × Node),
      (sightsBelow policy path es).map (·.1) = es.map (·.1) := by
    intro es
    rw [sightsBelow_eq, List.map_map]
    rfl
  rw [← hnames] at hnodup hnodup'
  refine inOrder_eq_of_perm ?_ hnodup
  rw [List.perm_ext_iff_of_nodup (List.Nodup.of_map _ hnodup) (List.Nodup.of_map _ hnodup')]
  intro seen
  rw [sightsBelow_eq, sightsBelow_eq, List.mem_map, List.mem_map]
  constructor
  · rintro ⟨⟨name, child⟩, hchild, rfl⟩
    obtain ⟨child', hchild', hbelow⟩ := mem_entries_sameBy h h' hsame hchild
    refine ⟨(name, child'), hchild', ?_⟩
    rw [hsights _ hchild child' (hproper' _ hchild').2 hbelow]
  · rintro ⟨⟨name, child'⟩, hchild', rfl⟩
    obtain ⟨child, hchild, hbelow⟩ := mem_entries_sameBy h' h hsame.symm hchild'
    refine ⟨(name, child), hchild, ?_⟩
    rw [hsights _ hchild child' (hproper' _ hchild').2 hbelow.symm]

/-- Walks see the same below directories that only differ in the order of entries. -/
theorem below_alike {entries entries' : List (String × Node)}
    (h : (Node.directory entries).isProper = true)
    (h' : (Node.directory entries').isProper = true)
    (halike : Alike (.directory entries) (.directory entries'))
    (hsights : ∀ e ∈ entries, ∀ child, child.isProper = true → Alike e.2 child →
      ∀ path, sights policy path e.2 = sights policy path child) (path : String) :
    inOrder (sightsBelow policy path entries) = inOrder (sightsBelow policy path entries') :=
  below_sameBy h h' halike hsights path

/-- What walks see does not depend on what is in the files. -/
theorem sights_sameOutline {a b : Node} (ha : a.isProper = true) (hb : b.isProper = true)
    (h : SameBy outline a b) (path : String) : sights policy path a = sights policy path b := by
  induction a using Node.induct generalizing b path with
  | file content =>
    obtain ⟨content', rfl⟩ := h.file
    rw [sights, sights]
  | special => rw [h.eq rfl rfl]
  | link target => rw [h.eq rfl rfl]
  | directory entries ih =>
    obtain ⟨entries', rfl⟩ := h.directory
    rw [sights, sights, below_sameBy ha hb h fun e he child hchild hbelow path =>
      ih e he ((Node.areProper_iff.mp ha).2 e he).2 hchild hbelow path]

/-- Walks see the same in trees that only differ in the order of entries. -/
theorem sights_alike {a b : Node} (ha : a.isProper = true) (hb : b.isProper = true)
    (h : Alike a b) (path : String) : sights policy path a = sights policy path b :=
  sights_sameOutline ha hb h.sameOutline path

/-! ### The files of a scan -/

/-- A scan of a directory sorts the files that a walk sees. -/
theorem run_files {t : FileTree} {root : String} {entries : List (String × Node)}
    (h : t.find root = .ok (.directory entries)) (includes excludes : List String)
    (log : List Message) :
    ∃ log', (files t root includes excludes).run.run log =
      (.ok (((inOrder (sightsBelow (.ofPatterns t.cwd root includes excludes) root
        entries)).filterMap Sight.file?).mergeSort), log') := by
  rw [files, h]
  exact ⟨_, rfl⟩

/-- A sorted list without repetitions is strictly sorted. -/
theorem pairwise_lt_mergeSort {l : List String} (h : l.Nodup) :
    l.mergeSort.Pairwise (· < ·) := by
  have hle : l.mergeSort.Pairwise (· ≤ ·) := List.pairwise_mergeSort' (· ≤ ·) l
  have hne : l.mergeSort.Nodup := (List.mergeSort_perm _ _).nodup_iff.mpr h
  exact hle.imp₂ (fun _ _ => lt_of_le_of_ne) hne

/-- The files that a scan lists are those that can be seen. -/
theorem mem_files_iff {path file : String} {entries : List (String × Node)}
    (h : (Node.directory entries).isProper = true) :
    file ∈ ((inOrder (sightsBelow policy path entries)).filterMap Sight.file?).mergeSort ↔
      ∃ names, Sees policy path (.directory entries) names ∧ file = Path.below path names := by
  rw [List.mem_mergeSort, mem_filesOf, mem_below_file_iff h fun e he =>
    seesAll ((Node.areProper_iff.mp h).2 e he).2]

theorem pairwise_files {path : String} {entries : List (String × Node)}
    (h : (Node.directory entries).isProper = true) :
    ((inOrder (sightsBelow policy path entries)).filterMap Sight.file?).mergeSort.Pairwise (· < ·) :=
  pairwise_lt_mergeSort (nodup_below h fun e he =>
    nodup_sights ((Node.areProper_iff.mp h).2 e he).2)

/-- A scan of trees with the same outlines is the same. -/
theorem files_sameOutline {t t' : FileTree} (hcwd : t.cwd = t'.cwd) (h : SameBy outline t.root t'.root)
    (root : String) (includes excludes : List String) :
    files t root includes excludes = files t' root includes excludes := by
  rcases FileTree.find_sameBy hcwd h h root with ⟨a, b, ha, hb, hab⟩ | ⟨c, ha, hb⟩
  · have hproper := FileTree.isProper_of_find ha
    have hproper' := FileTree.isProper_of_find hb
    rw [files, files, ha, hb, hcwd]
    cases a with
    | directory entries =>
      obtain ⟨entries', rfl⟩ := hab.directory
      simp only [below_sameBy hproper hproper' hab fun e he child hchild hbelow path =>
        sights_sameOutline ((Node.areProper_iff.mp hproper).2 e he).2 hchild hbelow path]
    | file =>
      obtain ⟨content', rfl⟩ := hab.file
      rfl
    | _ => rw [hab.eq rfl rfl]
  · rw [files, files, ha, hb]

/-- A scan of trees that only differ in the order of entries is the same. -/
theorem files_alike {t t' : FileTree} (hcwd : t.cwd = t'.cwd) (h : Alike t.root t'.root)
    (root : String) (includes excludes : List String) :
    files t root includes excludes = files t' root includes excludes :=
  files_sameOutline hcwd h.sameOutline root includes excludes

/-- A scan of a directory lists exactly the regular files below it that can be reached through
directories which are not excluded and that are chosen, each once and in the order of their paths.
It lists the same in each tree that only differs in the order of entries. -/
theorem files_of_directory {t : FileTree} {root : String} {entries : List (String × Node)}
    (h : t.find root = .ok (.directory entries)) (includes excludes : List String)
    (log : List Message) :
    ∃ paths log', (files t root includes excludes).run.run log = (.ok paths, log') ∧
      (∀ path, path ∈ paths ↔ ∃ names, path = Path.below root names ∧
        Sees ⟨Selection.isChosen t.cwd root includes excludes,
          Selection.isExcluded t.cwd root excludes true⟩ root (.directory entries) names) ∧
      paths.Nodup ∧ paths.Pairwise (· < ·) ∧
      ∀ t' : FileTree, t'.cwd = t.cwd → Alike t'.root t.root →
        files t' root includes excludes = files t root includes excludes := by
  have hproper := FileTree.isProper_of_find h
  have hentries := fun e he => ((Node.areProper_iff.mp hproper).2 e he).2
  have hnodup : ((inOrder (sightsBelow (.ofPatterns t.cwd root includes excludes) root
      entries)).filterMap Sight.file?).Nodup :=
    nodup_below hproper fun e he => nodup_sights (hentries e he)
  obtain ⟨log', hrun⟩ := run_files h includes excludes log
  refine ⟨_, log', hrun, fun path => ?_, ?_, pairwise_lt_mergeSort hnodup, ?_⟩
  · rw [List.mem_mergeSort, mem_filesOf, mem_below_file_iff hproper fun e he =>
      seesAll (hentries e he)]
    simp only [and_comm, Policy.ofPatterns]
  · exact (List.mergeSort_perm _ _).nodup_iff.mpr hnodup
  · exact fun t' hcwd halike => files_alike hcwd halike root includes excludes

/-- A tree with a directory and a link to it. -/
def linkedTree : FileTree where
  root := .directory [("to", .link "src"), ("src", .directory
    [("z.ts", .file []), ("up", .link ".."), ("a", .directory [("z.ts", .file [])])])]
  cwd := "/"
  proper := by decide

/-- The theorem holds of a root that is a link to a directory. -/
theorem files_of_linked_directory :
    ∃ paths log', (files linkedTree "to" ["**/*.ts"] ["**/a/**"]).run.run [] = (.ok paths, log') ∧
      paths.Pairwise (· < ·) := by
  have h : linkedTree.find "to" = .ok (.directory
      [("z.ts", .file []), ("up", .link ".."), ("a", .directory [("z.ts", .file [])])]) := rfl
  obtain ⟨paths, log', hrun, -, -, hsorted, -⟩ := files_of_directory h ["**/*.ts"] ["**/a/**"] []
  exact ⟨paths, log', hrun, hsorted⟩

end FlagAudit.Scan
