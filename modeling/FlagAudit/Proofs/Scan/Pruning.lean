import FlagAudit.Proofs.Scan
import FlagAudit.Proofs.Selection

/-!
# Scans that could do without pruning

A scan does not enter directories that are excluded. If every exclude pattern ends in two stars, this
is only a shortcut: all files below such a directory are excluded by their own paths too, so the scan
lists each file that is chosen (`files_of_subtree_excludes`).
-/

namespace FlagAudit.Scan

open FileTree (Node Location isEntryName)

variable {cwd root : String} {node : Node} {includes excludes : List String}

/-- The line feed is in none of the names in a tree. -/
def NoLineFeeds (node : Node) : Prop :=
  ∀ names child, node.at? names = some child → ∀ name ∈ names, '\n' ∉ name.toList

/-- It is enough to look at the entries of a node and below them. -/
theorem noLineFeeds_of_entries
    (h : ∀ e ∈ node.entries, '\n' ∉ e.1.toList ∧ NoLineFeeds e.2) : NoLineFeeds node :=
  Node.allNames_of_entries h

/-- A spelling has no line feed if the names have none. -/
theorem lineFeed_not_mem_below {names : Location} (h : ∀ n ∈ names, isEntryName n = true)
    (hline : ∀ n ∈ names, '\n' ∉ n.toList) : '\n' ∉ (Path.below "" names).toList := by
  intro hmem
  rcases Path.mem_below_empty h hmem with hslash | ⟨n, hn, hmem⟩
  · revert hslash
    decide
  · exact hline n hn hmem

/-- If the exclude patterns end in two stars, whatever is below an excluded directory is excluded by
its own path. -/
theorem isExcluded_of_directory (hcwd : Path.isAbsolute cwd = true)
    (hexcludes : ∀ p ∈ excludes, ['*', '*'] <:+ p.toList) {names rest : Location}
    (hne : names ≠ []) (hnames : ∀ n ∈ names ++ rest, isEntryName n = true)
    (hline : ∀ n ∈ names ++ rest, '\n' ∉ n.toList) (hrest : rest ≠ [])
    (h : Selection.isExcluded cwd root excludes true (Path.below root names) = true) :
    Selection.isExcluded cwd root excludes false (Path.below root (names ++ rest)) = true := by
  have hnames' := (List.forall_mem_append.mp hnames).1
  rw [Selection.isExcluded_below hcwd hne hnames'] at h
  rw [Selection.isExcluded_below hcwd (List.append_ne_nil_of_left_ne_nil hne _) hnames]
  have hspelling := lineFeed_not_mem_below hnames hline
  rw [Path.below_empty_append hne hrest hnames] at hspelling ⊢
  exact Selection.excludesSpelling_append hexcludes hspelling h

/-- If the exclude patterns end in two stars, a chosen file is always reached. -/
theorem sees_iff_chosen (hproper : node.isProper = true) (hcwd : Path.isAbsolute cwd = true)
    (hline : NoLineFeeds node) (hexcludes : ∀ p ∈ excludes, ['*', '*'] <:+ p.toList)
    {names : Location} :
    Sees (.ofPatterns cwd root includes excludes) root node names ↔
      (∃ content, node.at? names = some (.file content)) ∧
        Selection.isChosen cwd root includes excludes (Path.below root names) = true := by
  constructor
  · rintro ⟨hfile, -, hchosen⟩
    exact ⟨hfile, hchosen⟩
  · rintro ⟨⟨content, hfile⟩, hchosen⟩
    refine ⟨⟨content, hfile⟩, fun k hpos hk => ?_, hchosen⟩
    have hnames := Node.isEntryName_of_at? hproper hfile
    have hlines := hline names _ hfile
    have htake : names.take k ≠ [] := by
      rw [Ne, List.take_eq_nil_iff, not_or]
      exact ⟨Nat.ne_of_gt hpos, List.ne_nil_of_length_pos (Nat.lt_of_le_of_lt (Nat.zero_le k) hk)⟩
    have hdrop : names.drop k ≠ [] := by
      rw [Ne, List.drop_eq_nil_iff]
      omega
    rw [← List.take_append_drop k names] at hnames hlines hchosen
    rw [← Bool.not_eq_true]
    intro hpruned
    have hexcluded := isExcluded_of_directory hcwd hexcludes htake hnames hlines hdrop hpruned
    rw [Selection.isChosen, hexcluded] at hchosen
    cases hchosen

/-- If every exclude pattern ends in two stars and no name has a line feed, a scan of a directory
lists exactly the regular files below it that are chosen, in the order of their paths, as if it
entered all directories: a file below a directory that is left out is excluded by its own path. -/
theorem files_of_subtree_excludes {t : FileTree} {root : String} {entries : List (String × Node)}
    (hcwd : Path.isAbsolute t.cwd = true) (h : t.find root = .ok (.directory entries))
    (hline : NoLineFeeds (.directory entries)) (includes : List String) {excludes : List String}
    (hexcludes : ∀ p ∈ excludes, ['*', '*'] <:+ p.toList) (log : List Message) :
    ∃ paths log', (files t root includes excludes).run.run log = (.ok paths, log') ∧
      (∀ path, path ∈ paths ↔ ∃ names content, path = Path.below root names ∧
        (Node.directory entries).at? names = some (.file content) ∧
        Selection.isChosen t.cwd root includes excludes path = true) ∧
      paths.Pairwise (· < ·) ∧
      ∀ names rest entries' content, names ≠ [] →
        (Node.directory entries).at? names = some (.directory entries') →
        (Node.directory entries).at? (names ++ rest) = some (.file content) →
        Selection.isExcluded t.cwd root excludes true (Path.below root names) = true →
        Selection.isExcluded t.cwd root excludes false (Path.below root (names ++ rest)) = true := by
  have hproper := FileTree.isProper_of_find h
  obtain ⟨log', hrun⟩ := run_files h includes excludes log
  refine ⟨_, log', hrun, fun path => ?_, ?_, ?_⟩
  · rw [mem_files_iff hproper]
    simp only [sees_iff_chosen hproper hcwd hline hexcludes]
    constructor
    · rintro ⟨names, ⟨⟨content, hfile⟩, hchosen⟩, rfl⟩
      exact ⟨names, content, rfl, hfile, hchosen⟩
    · rintro ⟨names, content, rfl, hfile, hchosen⟩
      exact ⟨names, ⟨⟨content, hfile⟩, hchosen⟩, rfl⟩
  · exact pairwise_files hproper
  · intro names rest entries' content hne hdirectory hfile hexcluded
    have hrest : rest ≠ [] := by
      rintro rfl
      rw [List.append_nil, hdirectory] at hfile
      cases hfile
    exact isExcluded_of_directory hcwd hexcludes hne (Node.isEntryName_of_at? hproper hfile)
      (hline _ _ hfile) hrest hexcluded

/-- A tree with a directory that is left out, and a file deep below it. -/
def generatedTree : FileTree where
  root := .directory [("src", .directory [("z.ts", .file []),
    ("gen", .directory [("deep", .directory [("y.ts", .file [])])])])]
  cwd := "/"
  proper := by decide

/-- The theorem holds where a directory is left out by a run of three stars. -/
theorem files_of_odd_stars :
    ∃ paths log', (files generatedTree "src" ["**/*.ts"] ["ge***"]).run.run [] = (.ok paths, log') ∧
      "src/z.ts" ∈ paths ∧ paths.Pairwise (· < ·) ∧
      Selection.isExcluded "/" "src" ["ge***"] true "src/gen" = true ∧
      Selection.isExcluded "/" "src" ["ge***"] false "src/gen/deep/y.ts" = true := by
  have hline : NoLineFeeds (.directory [("z.ts", .file []),
      ("gen", .directory [("deep", .directory [("y.ts", .file [])])])]) := by
    have hfile : NoLineFeeds (.file []) := noLineFeeds_of_entries (List.forall_mem_nil _)
    have hdeep : NoLineFeeds (.directory [("y.ts", .file [])]) :=
      noLineFeeds_of_entries (by simp [Node.entries, hfile])
    have hgen : NoLineFeeds (.directory [("deep", .directory [("y.ts", .file [])])]) :=
      noLineFeeds_of_entries (by simp [Node.entries, hdeep])
    exact noLineFeeds_of_entries (by simp [Node.entries, hfile, hgen])
  have hexcluded : Selection.isExcluded "/" "src" ["ge***"] true "src/gen" = true := by
    decide +kernel
  obtain ⟨paths, log', hrun, hmem, hsorted, hbelow⟩ := @files_of_subtree_excludes generatedTree "src"
    _ (by decide) rfl hline ["**/*.ts"] ["ge***"] (by decide) []
  refine ⟨paths, log', hrun, (hmem _).mpr ⟨["z.ts"], [], rfl, rfl, ?_⟩, hsorted, hexcluded, ?_⟩
  · decide +kernel
  · exact hbelow ["gen"] ["deep", "y.ts"] _ _ (by decide) rfl rfl hexcluded

end FlagAudit.Scan
