import FlagAudit.Proofs.Scan
import FlagAudit.Proofs.Selection

/-!
# Scans of one tree from different roots

What a scan lists depends on the tree below its root, not on where the root is or how it is spelled:
there is one list of spellings, and from each root the scan lists their paths, in the same order
(`files_eq_map_join`). Patterns see an entry by the names that lead to it, and by nothing else.
-/

namespace FlagAudit.Scan

open FileTree (Node Location isEntryName)
open FileTree.Node (Alike)

variable {cwd root : String} {node : Node} {includes excludes : List String}

/-! ### What is seen from a root -/

/-- Two policies see a file together if they agree on it and on the directories on the way. -/
theorem sees_congr {policy policy' : Policy} {path path' : String} {names : Location}
    (hpruned : ∀ k, 0 < k → k < names.length →
      policy.pruned (Path.below path (names.take k)) =
        policy'.pruned (Path.below path' (names.take k)))
    (hchosen : policy.chosen (Path.below path names) = policy'.chosen (Path.below path' names)) :
    Sees policy path node names ↔ Sees policy' path' node names := by
  constructor
  · rintro ⟨hfile, hentered, hthis⟩
    exact ⟨hfile, fun k hpos hk => (hpruned k hpos hk).symm.trans (hentered k hpos hk),
      hchosen.symm.trans hthis⟩
  · rintro ⟨hfile, hentered, hthis⟩
    exact ⟨hfile, fun k hpos hk => (hpruned k hpos hk).trans (hentered k hpos hk),
      hchosen.trans hthis⟩

/-- The policy of include and exclude patterns for entries that are given by their spellings. -/
def Policy.ofSpellings (includes excludes : List String) : Policy where
  chosen := Selection.choosesSpelling includes excludes
  pruned := Selection.excludesSpelling excludes true

/-- The names of a file in a directory. -/
theorem names_of_file (hproper : node.isProper = true) (hdirectory : node.isDirectory = true)
    {names : Location} (h : ∃ content, node.at? names = some (.file content)) :
    names ≠ [] ∧ ∀ n ∈ names, isEntryName n = true := by
  obtain ⟨content, hfile⟩ := h
  refine ⟨?_, Node.isEntryName_of_at? hproper hfile⟩
  rintro rfl
  rw [Node.at?_nil] at hfile
  cases hfile
  cases hdirectory

/-- From each root, the files that are seen are those that are seen by their spellings. -/
theorem sees_ofPatterns_iff (hproper : node.isProper = true)
    (hdirectory : node.isDirectory = true) (hcwd : Path.isAbsolute cwd = true) {names : Location} :
    Sees (.ofPatterns cwd root includes excludes) root node names ↔
      Sees (.ofSpellings includes excludes) "" node names := by
  by_cases hfile : ∃ content, node.at? names = some (.file content)
  · obtain ⟨hne, hnames⟩ := names_of_file hproper hdirectory hfile
    refine sees_congr (fun k hpos hk => ?_) (Selection.isChosen_below hcwd hne hnames)
    have htake : names.take k ≠ [] := by
      rw [Ne, List.take_eq_nil_iff, not_or]
      exact ⟨Nat.ne_of_gt hpos, hne⟩
    exact Selection.isExcluded_below hcwd htake
      (fun n hn => hnames n (List.mem_of_mem_take hn)) true
  · exact iff_of_false (fun h => hfile h.isFile) fun h => hfile h.isFile

/-! ### The order of paths -/

/-- Paths below one directory are ordered as their spellings are. -/
theorem join_lt_join {spelling spelling' : String} (h : Path.isAbsolute spelling = false)
    (h' : Path.isAbsolute spelling' = false) (hlt : spelling < spelling') (root : String) :
    Path.join root spelling < Path.join root spelling' := by
  rw [String.lt_iff_toList_lt] at hlt ⊢
  rw [Path.toList_join_of_relative h, Path.toList_join_of_relative h']
  exact List.append_left_lt hlt

/-- The spellings of the files that are chosen in a directory, in their order. -/
def spellingsOf (includes excludes : List String) (entries : List (String × Node)) : List String :=
  ((inOrder (sightsBelow (.ofSpellings includes excludes) "" entries)).filterMap
    Sight.file?).mergeSort

theorem mem_spellingsOf_iff {entries : List (String × Node)}
    (h : (Node.directory entries).isProper = true) {spelling : String} :
    spelling ∈ spellingsOf includes excludes entries ↔ ∃ names,
      Sees (.ofSpellings includes excludes) "" (.directory entries) names ∧
        spelling = Path.below "" names :=
  mem_files_iff h

theorem pairwise_spellingsOf {entries : List (String × Node)}
    (h : (Node.directory entries).isProper = true) :
    (spellingsOf includes excludes entries).Pairwise (· < ·) :=
  pairwise_files h

/-- A scan lists the paths of the spellings. -/
theorem sorted_files_eq_map {entries : List (String × Node)}
    (h : (Node.directory entries).isProper = true) (hcwd : Path.isAbsolute cwd = true) :
    ((inOrder (sightsBelow (.ofPatterns cwd root includes excludes) root entries)).filterMap
      Sight.file?).mergeSort = (spellingsOf includes excludes entries).map (Path.join root) := by
  have hspelling : ∀ s ∈ spellingsOf includes excludes entries,
      ∃ names, Sees (.ofSpellings includes excludes) "" (.directory entries) names ∧
        s = Path.below "" names ∧ Path.isAbsolute s = false ∧
        Path.join root s = Path.below root names := by
    intro s hs
    obtain ⟨names, hsees, rfl⟩ := (mem_spellingsOf_iff h).mp hs
    obtain ⟨hne, hnames⟩ := names_of_file h rfl hsees.isFile
    exact ⟨names, hsees, rfl, Path.isAbsolute_below hnames "",
      Path.join_below_empty hne hnames root⟩
  refine (pairwise_files h).eq_of_mem_iff ?_ fun file => ?_
  · rw [List.pairwise_map]
    refine (pairwise_spellingsOf h).imp_of_mem fun hs hs' hlt => ?_
    obtain ⟨-, -, -, hrelative, -⟩ := hspelling _ hs
    obtain ⟨-, -, -, hrelative', -⟩ := hspelling _ hs'
    exact join_lt_join hrelative hrelative' hlt root
  · rw [mem_files_iff h, List.mem_map]
    simp only [sees_ofPatterns_iff h rfl hcwd]
    constructor
    · rintro ⟨names, hsees, rfl⟩
      obtain ⟨hne, hnames⟩ := names_of_file h rfl hsees.isFile
      exact ⟨_, (mem_spellingsOf_iff h).mpr ⟨names, hsees, rfl⟩,
        Path.join_below_empty hne hnames root⟩
    · rintro ⟨s, hs, rfl⟩
      obtain ⟨names, hsees, -, -, hjoin⟩ := hspelling s hs
      exact ⟨names, hsees, hjoin⟩

/-- For each tree there is one list of spellings, those of the files that are chosen by their
spellings and reached through directories that are not excluded by theirs. A scan from any root that
leads to such a tree, wherever it is and however it is spelled, lists the paths of the spellings
below the root, in the same order. -/
theorem files_eq_map_join {entries : List (String × Node)}
    (h : (Node.directory entries).isProper = true) (includes excludes : List String) :
    ∃ spellings : List String,
      (∀ s, s ∈ spellings ↔ ∃ names, s = Path.below "" names ∧
        Sees (.ofSpellings includes excludes) "" (.directory entries) names) ∧
      spellings.Pairwise (· < ·) ∧
      ∀ (t : FileTree) (root : String) (node : Node), Path.isAbsolute t.cwd = true →
        t.find root = .ok node → Alike (.directory entries) node → ∀ log, ∃ log',
          (files t root includes excludes).run.run log =
            (.ok (spellings.map (Path.join root)), log') := by
  refine ⟨spellingsOf includes excludes entries, fun s => ?_, pairwise_spellingsOf h, ?_⟩
  · rw [mem_spellingsOf_iff h]
    simp only [and_comm]
  · intro t root node hcwd hroot halike log
    obtain ⟨entries', rfl⟩ := halike.directory
    have hproper := FileTree.isProper_of_find hroot
    obtain ⟨log', hrun⟩ := run_files hroot includes excludes log
    refine ⟨log', hrun.trans ?_⟩
    rw [← sorted_files_eq_map h hcwd, below_alike h hproper halike fun e he child hchild hbelow path =>
      sights_alike ((Node.areProper_iff.mp h).2 e he).2 hchild hbelow path]

/-- Some sources, with a directory of generated files. -/
def sources : List (String × Node) :=
  [("b", .directory [("c.ts", .file []), ("d.md", .file [])]), ("b.ts", .file []),
    ("gen", .directory [("x.ts", .file [])])]

/-- The sources below the working directory. -/
def homeTree : FileTree where
  root := .directory [("home", .directory [("gen", .directory sources)])]
  cwd := "/home"
  proper := by decide

/-- The sources elsewhere, and a link to them. -/
def sharedTree : FileTree where
  root := .directory [("to", .link "share/src"), ("share", .directory [("src", .directory sources)])]
  cwd := "/"
  proper := by decide

/-- The theorem holds of sources below a directory with the name of an excluded one, reached by a
double dot, and of the same sources reached through a link. -/
theorem files_of_two_roots :
    (Node.directory sources).isProper = true ∧ ∃ spellings : List String,
      "b/c.ts" ∈ spellings ∧ spellings.Pairwise (· < ·) ∧
      (∃ log', (files homeTree "gen/../gen//" ["**/*.ts"] ["gen/**"]).run.run [] =
        (.ok (spellings.map (Path.join "gen/../gen//")), log')) ∧
      ∃ log', (files sharedTree "/to" ["**/*.ts"] ["gen/**"]).run.run [] =
        (.ok (spellings.map (Path.join "/to")), log') := by
  have hproper : (Node.directory sources).isProper = true := by decide
  obtain ⟨spellings, hmem, hsorted, hfiles⟩ := files_eq_map_join hproper ["**/*.ts"] ["gen/**"]
  refine ⟨hproper, spellings, (hmem _).mpr ⟨["b", "c.ts"], rfl, ⟨[], rfl⟩, ?_, ?_⟩, hsorted, ?_, ?_⟩
  · intro k hpos hk
    obtain rfl : k = 1 := by
      simp only [List.length_cons, List.length_nil] at hk
      omega
    decide +kernel
  · decide +kernel
  · exact hfiles homeTree _ (.directory sources) (by decide) rfl (fun _ => rfl) []
  · exact hfiles sharedTree _ (.directory sources) (by decide) rfl (fun _ => rfl) []

end FlagAudit.Scan
