import FlagAudit.Proofs.Scan.Relocation
import FlagAudit.Proofs.Selection.Depth

/-!
# Scans with the default patterns

With the default patterns a scan lists the source files and the environment files below its root that
are in no directory of packages or of built files (`files_of_defaults`). Only the names of the file and
of the directories below the root count: a file may have the name of such a directory, and so may a
directory above the root.
-/

namespace FlagAudit.Scan

open FileTree (Node Location isEntryName)
open Selection (IsPlainName IsSourceName generatedDirectories)

variable {cwd root : String} {node : Node} {dirs : Location} {name : String}

/-- By default a directory is left out if it is one of the directories that are left out, or below
one. -/
theorem pruned_default_iff (hne : dirs ≠ []) (hnames : ∀ n ∈ dirs, isEntryName n = true)
    (h : ∀ n ∈ dirs, IsPlainName n) :
    (Policy.ofSpellings ({} : Config).includes ({} : Config).excludes).pruned (Path.below "" dirs) =
      false ↔ ∀ dir ∈ generatedDirectories, dir ∉ dirs := by
  obtain ⟨above, last, rfl⟩ := (List.eq_nil_or_concat dirs).resolve_left hne
  rw [List.concat_eq_append] at hnames h ⊢
  rw [Policy.ofSpellings, ← Bool.not_eq_true, Selection.excludes_default_iff hnames h]
  simp

/-- By default a file is chosen by its name, unless one of its ancestors is left out. -/
theorem chosen_default_iff (hnames : ∀ n ∈ dirs ++ [name], isEntryName n = true)
    (h : ∀ n ∈ dirs ++ [name], IsPlainName n) :
    (Policy.ofSpellings ({} : Config).includes ({} : Config).excludes).chosen
        (Path.below "" (dirs ++ [name])) = true ↔
      IsSourceName name ∧ ∀ dir ∈ generatedDirectories, dir ∉ dirs := by
  have hincludes : ({} : Config).includes ≠ [] := List.cons_ne_nil _ _
  rw [Policy.ofSpellings, Selection.choosesSpelling_iff hincludes,
    Selection.includes_default_iff hnames h, ← Bool.not_eq_true,
    Selection.excludes_default_iff hnames h, and_comm]
  simp

/-- By default a file is seen if it has the name of a source file or of an environment file and none of
its ancestors is left out. -/
theorem sees_default_iff (hproper : node.isProper = true) (hdirectory : node.isDirectory = true)
    (hcwd : Path.isAbsolute cwd = true) (hplain : node.AllNames IsPlainName) {names : Location} :
    Sees (.ofPatterns cwd root ({} : Config).includes ({} : Config).excludes) root node names ↔
      ∃ dirs name content, names = dirs ++ [name] ∧ node.at? names = some (.file content) ∧
        IsSourceName name ∧ ∀ dir ∈ generatedDirectories, dir ∉ dirs := by
  rw [sees_ofPatterns_iff hproper hdirectory hcwd]
  constructor
  · rintro ⟨⟨content, hfile⟩, -, hchosen⟩
    obtain ⟨hne, hnames⟩ := names_of_file hproper hdirectory ⟨content, hfile⟩
    obtain ⟨dirs, name, rfl⟩ := (List.eq_nil_or_concat names).resolve_left hne
    rw [List.concat_eq_append] at *
    exact ⟨dirs, name, content, rfl, hfile,
      (chosen_default_iff hnames (hplain _ _ hfile)).mp hchosen⟩
  · rintro ⟨dirs, name, content, rfl, hfile, hname, hdirs⟩
    obtain ⟨-, hnames⟩ := names_of_file hproper hdirectory ⟨content, hfile⟩
    have hplain := hplain _ _ hfile
    refine ⟨⟨content, hfile⟩, fun k hpos hk => ?_,
      (chosen_default_iff hnames hplain).mpr ⟨hname, hdirs⟩⟩
    rw [List.length_append, List.length_singleton, Nat.lt_succ_iff] at hk
    rw [List.take_append_of_le_length hk]
    -- The names that lead to a directory on the way are names of ancestors of the file.
    have htake : dirs.take k ≠ [] := by
      rw [Ne, List.take_eq_nil_iff, not_or, ← List.length_eq_zero_iff]
      omega
    have hmem : ∀ n ∈ dirs.take k, n ∈ dirs ++ [name] := fun n hn =>
      List.mem_append_left _ (List.mem_of_mem_take hn)
    refine (pruned_default_iff htake (fun n hn => hnames n (hmem n hn)) fun n hn =>
      hplain n (hmem n hn)).mpr fun dir hdir hgenerated => ?_
    exact hdirs dir hdir (List.mem_of_mem_take hgenerated)

/-- With the default patterns a scan of a directory lists exactly the regular files below it that have
the name of a source file or of an environment file and no directory of packages or of built files among
their ancestors below the root, each once and in the order of their paths. -/
theorem files_of_defaults {t : FileTree} {root : String} {entries : List (String × Node)}
    (hcwd : Path.isAbsolute t.cwd = true) (h : t.find root = .ok (.directory entries))
    (hplain : (Node.directory entries).AllNames IsPlainName) (log : List Message) :
    ∃ paths log', (files t root ({} : Config).includes ({} : Config).excludes).run.run log =
        (.ok paths, log') ∧
      (∀ path, path ∈ paths ↔ ∃ dirs name content, path = Path.below root (dirs ++ [name]) ∧
        (Node.directory entries).at? (dirs ++ [name]) = some (.file content) ∧
        IsSourceName name ∧ ∀ dir ∈ generatedDirectories, dir ∉ dirs) ∧
      paths.Pairwise (· < ·) := by
  have hproper := FileTree.isProper_of_find h
  obtain ⟨log', hrun⟩ := run_files h ({} : Config).includes ({} : Config).excludes log
  refine ⟨_, log', hrun, fun path => ?_, pairwise_files hproper⟩
  rw [mem_files_iff hproper]
  simp only [sees_default_iff hproper rfl hcwd hplain]
  constructor
  · rintro ⟨_, ⟨dirs, name, content, rfl, hfile, hselected⟩, rfl⟩
    exact ⟨dirs, name, content, rfl, hfile, hselected⟩
  · rintro ⟨dirs, name, content, rfl, hfile, hselected⟩
    exact ⟨_, ⟨dirs, name, content, rfl, hfile, hselected⟩, rfl⟩

/-- A tree below a directory of built files, with special names at several places. -/
def packageTree : FileTree where
  root := .directory [("build", .directory [("dist", .file []), (".env.local", .file []),
    ("builds", .directory [("app.tsx", .file []), ("dist", .directory [("app.js", .file [])])])])]
  cwd := "/"
  proper := by decide

/-- The theorem holds for a root that has the name of a directory that is left out, and for a file with
such a name. -/
theorem files_of_packages :
    ∃ paths log', (files packageTree "build" ({} : Config).includes ({} : Config).excludes).run.run [] =
        (.ok paths, log') ∧
      "build/.env.local" ∈ paths ∧ "build/builds/app.tsx" ∈ paths ∧ "build/builds/dist/app.js" ∉ paths ∧
      paths.Pairwise (· < ·) := by
  have hplain : (Node.directory [("dist", .file []), (".env.local", .file []),
      ("builds", .directory [("app.tsx", .file []),
        ("dist", .directory [("app.js", .file [])])])]).AllNames IsPlainName := by
    have hfile : (Node.file []).AllNames IsPlainName := Node.allNames_of_entries (List.forall_mem_nil _)
    have hdist : (Node.directory [("app.js", .file [])]).AllNames IsPlainName :=
      Node.allNames_of_entries (by
        rintro e (_ | ⟨_, ⟨⟩⟩)
        exact ⟨⟨by decide, by decide⟩, hfile⟩)
    have hbuilds : (Node.directory [("app.tsx", .file []),
        ("dist", .directory [("app.js", .file [])])]).AllNames IsPlainName :=
      Node.allNames_of_entries (by
        rintro e (_ | ⟨_, _ | ⟨_, ⟨⟩⟩⟩)
        · exact ⟨⟨by decide, by decide⟩, hfile⟩
        · exact ⟨⟨by decide, by decide⟩, hdist⟩)
    refine Node.allNames_of_entries ?_
    rintro e (_ | ⟨_, _ | ⟨_, _ | ⟨_, ⟨⟩⟩⟩⟩)
    · exact ⟨⟨by decide, by decide⟩, hfile⟩
    · exact ⟨⟨by decide, by decide⟩, hfile⟩
    · exact ⟨⟨by decide, by decide⟩, hbuilds⟩
  obtain ⟨paths, log', hrun, hmem, hsorted⟩ := @files_of_defaults packageTree "build" _ (by decide) rfl
    hplain []
  refine ⟨paths, log', hrun, (hmem _).mpr ⟨[], ".env.local", [], rfl, rfl, ?_, ?_⟩,
    (hmem _).mpr ⟨["builds"], "app.tsx", [], rfl, rfl, ?_, ?_⟩, ?_, hsorted⟩
  · decide
  · decide
  · decide
  · decide
  · intro hpath
    obtain ⟨dirs, name, content, heq, hfile, -, hdirs⟩ := (hmem _).mp hpath
    have hnames : dirs ++ [name] = ["builds", "dist"] ++ ["app.js"] :=
      Path.below_injective (List.append_ne_nil_of_right_ne_nil _ (List.cons_ne_nil _ _))
        (List.cons_ne_nil _ _) (Node.isEntryName_of_at? (by decide) hfile)
        (by decide) heq.symm
    rw [(List.append_inj' hnames rfl).1] at hdirs
    exact hdirs "dist" (by decide) (by decide)

end FlagAudit.Scan
