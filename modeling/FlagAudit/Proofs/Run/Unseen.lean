import FlagAudit.Proofs.Run.Errors
import FlagAudit.Proofs.Scan.Changes

/-!
# What is not scanned does not matter

Two trees in which a scan sees the same files lead to the same end of a run and to the same warnings,
whatever else is in them (`run_unseen`): every stage of a run only looks at files that the scan has
listed, and what the path of such a file leads to depends on the directory of the root alone.
-/

namespace FlagAudit.Run

open FileTree (Node Location)
open Scan (Change SameSights Sees inOrder sightsBelow Sight)

variable {t t' : FileTree} {config : Config} {workers : Int}
  {completion completion' : List String → List Nat} {root : String} {files : List String}

/-! ### Trees with the same texts -/

theorem search_congr [Regex.CharNames] {path : String} (h : t.readText path = t'.readText path) :
    search t config path = search t' config path := by
  rw [search, search, readSource, readSource, h]

theorem settleAll_congr [Regex.CharNames] (h : ∀ path ∈ files, t.readText path = t'.readText path)
    (order : List Nat) : settleAll t config files order = settleAll t' config files order := by
  induction order with
  | nil => rw [settleAll, settleAll]
  | cons i rest ih =>
    rw [settleAll, settleAll, ih]
    cases hpath : files[i]? with
    | none => rfl
    | some path =>
      have hsettle : settle t config path = settle t' config path := by
        rw [settle, settle, search_congr (h path (List.mem_of_getElem? hpath))]
      simp only [hsettle]

/-- The searches of files with the same texts are settled in the same way. -/
theorem collect_congr [Regex.CharNames] (h : ∀ path ∈ files, t.readText path = t'.readText path)
    (order : List Nat) :
    collect t config workers order files = collect t' config workers order files := by
  rw [collect, collect, settleAll_congr h]

/-- With one worker, searches are settled in the order of the files. -/
theorem collect_of_one_worker [Regex.CharNames] (h : ¬ 1 < workers) (t : FileTree) (order order' : List Nat) :
    collect t config workers order files = collect t config workers order' files := by
  rw [collect, collect, settlingOrder, settlingOrder, decide_eq_false h, Bool.false_and]
  rfl

theorem deadOf_congr (h : ∀ path ∈ files, t.readText path = t'.readText path) :
    files.flatMap (deadOf t) = files.flatMap (deadOf t') := by
  rw [List.flatMap_def, List.flatMap_def]
  congr 1
  refine List.map_congr_left fun path hpath => ?_
  rw [deadOf, deadOf, h path hpath]

/-- Runs that list the same files and collect from them in the same way end alike if the files have the
same texts. -/
theorem exists_run_of_collect [Regex.CharNames] {ms ms' : List Message}
    (hscan : Yields (Scan.files t root config.includes config.excludes) (.ok files) ms)
    (hscan' : Yields (Scan.files t' root config.includes config.excludes) (.ok files) ms')
    (hdebug : ∀ m ∈ ms, m.level = .debug) (hdebug' : ∀ m ∈ ms', m.level = .debug)
    (htexts : ∀ path ∈ files, t.readText path = t'.readText path)
    (hcollect : collect t config workers (completion files) files =
      collect t' config workers (completion' files) files) :
    ∃ outcome found found', Yields (run t config workers completion root) outcome found ∧
      Yields (run t' config workers completion' root) outcome found' ∧
      warningsOf found = warningsOf found' := by
  obtain ⟨result, ms'', hyields, -⟩ := exists_yields_collect t config workers (completion files) files
  have hyields' := hcollect ▸ hyields
  cases result with
  | error e =>
    refine ⟨_, _, _, yields_run_of_collect hscan hyields, yields_run_of_collect hscan' hyields', ?_⟩
    rw [← List.append_nil ms'', warningsOf_run hdebug (List.forall_mem_nil _),
      warningsOf_run hdebug' (List.forall_mem_nil _)]
  | ok share =>
    refine ⟨_, _, _, yields_run hscan hyields, deadOf_congr htexts ▸ yields_run hscan' hyields', ?_⟩
    rw [warningsOf_run hdebug level_of_skipped, warningsOf_run hdebug' level_of_skipped]

/-- The order in which searches are completed has no bearing on how a run ends, and if it gives
findings, the warnings only differ in their order. -/
theorem exists_run_of_completions [Regex.CharNames] {ms : List Message} (workers : Int)
    (hscan : Yields (Scan.files t root config.includes config.excludes) (.ok files) ms)
    (hdebug : ∀ m ∈ ms, m.level = .debug) (hnodup : files.Nodup)
    (hcompletion : (completion files).Perm (List.range files.length))
    (hcompletion' : (completion' files).Perm (List.range files.length)) :
    ∃ outcome found found', Yields (run t config workers completion root) outcome found ∧
      Yields (run t config workers completion' root) outcome found' ∧
      ∀ findings, outcome = .ok findings → (warningsOf found).Perm (warningsOf found') := by
  by_cases hoverflows : Overflows t config files
  · obtain ⟨message, cause, hinternal⟩ := exists_internal hoverflows.1
    obtain ⟨found, hrun⟩ := hinternal t workers completion root files ms hscan hcompletion hoverflows
    obtain ⟨found', hrun'⟩ := hinternal t workers completion' root files ms hscan hcompletion'
      hoverflows
    exact ⟨_, found, found', hrun, hrun', fun _ heq => nomatch heq⟩
  · obtain ⟨findings, found, hrun, haccounts⟩ :=
      yields_run_of_not_overflows workers hscan hdebug hnodup hcompletion hoverflows
    obtain ⟨findings', found', hrun', haccounts'⟩ :=
      yields_run_of_not_overflows workers hscan hdebug hnodup hcompletion' hoverflows
    have hfindings : findings' = findings := haccounts'.findings_eq.trans haccounts.findings_eq.symm
    subst hfindings
    exact ⟨_, found, found', hrun, hrun', fun _ _ =>
      haccounts.warnings_perm.trans haccounts'.warnings_perm.symm⟩

/-! ### Trees in which the same files are seen -/

/-- The files that are seen have the same texts in both trees. -/
theorem readText_eq_of_sameSights {policy : Scan.Policy} {entries entries' : List (String × Node)}
    (hroot : t.find root = .ok (.directory entries))
    (hroot' : t'.find root = .ok (.directory entries'))
    (h : SameSights policy root (.directory entries) (.directory entries')) {path : String}
    (hpath : path ∈ ((inOrder (sightsBelow policy root entries)).filterMap Sight.file?).mergeSort) :
    t.readText path = t'.readText path := by
  obtain ⟨names, hsees, rfl⟩ := (Scan.mem_files_iff (FileTree.isProper_of_find hroot)).mp hpath
  obtain ⟨content, hfile⟩ := hsees.isFile
  have hfile' := ((h names content).mp ⟨hsees, hfile⟩).2
  have hne : names ≠ [] := by
    rintro rfl
    cases hfile
  refine FileTree.readText_congr ?_
  rw [FileTree.find_below hroot hne hfile, FileTree.find_below hroot' hne hfile']

/-- What a scan does not see has no bearing on a run. If the directory of the root only differs by
changes of which the scan sees nothing, and the trees differ in any way outside of it, a run ends in the
same way in both, and it gives the same warnings: up to their order if the searches are completed in
different orders, and in the same order otherwise. -/
theorem run_unseen [Regex.CharNames] {entries entries' : List (String × Node)} (hcwd : t'.cwd = t.cwd)
    (hroot : t.find root = .ok (.directory entries))
    (hroot' : t'.find root = .ok (.directory entries'))
    (hchanges : Relation.ReflTransGen
      (Change (.ofPatterns t.cwd root config.includes config.excludes) root)
      (.directory entries) (.directory entries'))
    (hcompletion : ∀ files, (completion files).Perm (List.range files.length))
    (hcompletion' : ∀ files, (completion' files).Perm (List.range files.length))
    (workers : Int) (log : List Message) :
    ∃ outcome ms ms',
      (run t config workers completion root).run.run log = (outcome, log ++ ms) ∧
      (run t' config workers completion' root).run.run log = (outcome, log ++ ms') ∧
      (∀ findings, outcome = .ok findings → (warningsOf ms).Perm (warningsOf ms')) ∧
      ((1 < workers → completion = completion') → warningsOf ms = warningsOf ms') := by
  have hsights := Scan.sameSights_of_changes hchanges
  have hproper := FileTree.isProper_of_find hroot
  obtain ⟨listed, hscan, hdebug⟩ :=
    Scan.yields_files_of_directory hroot config.includes config.excludes
  obtain ⟨listed', hscan', hdebug'⟩ :=
    Scan.yields_files_of_directory hroot' config.includes config.excludes
  rw [hcwd, ← hsights.files_eq hproper (FileTree.isProper_of_find hroot')] at hscan'
  have htexts := fun path => @readText_eq_of_sameSights t t' root _ entries entries' hroot hroot'
    hsights path
  -- Between the two runs is one in the first tree, with the searches in the order of the second run.
  obtain ⟨outcome, ms, other, hrun, hother, hperm⟩ := exists_run_of_completions workers hscan hdebug
    ((Scan.pairwise_files hproper).imp ne_of_lt) (hcompletion _) (hcompletion' _)
  obtain ⟨outcome', other', ms', hother', hrun', hsame⟩ := exists_run_of_collect hscan hscan' hdebug
    hdebug' htexts (collect_congr htexts _)
  obtain ⟨rfl, rfl⟩ := hother.unique hother'
  refine ⟨outcome, ms, ms', hrun log, hrun' log, fun findings hok => hsame ▸ hperm findings hok, ?_⟩
  intro hcompletions
  obtain ⟨_, found, found', hfound, hfound', heq⟩ := @exists_run_of_collect t t' config workers
    completion completion' root _ _ _ _ hscan hscan' hdebug hdebug' htexts (by
      rw [← collect_congr htexts]
      by_cases hworkers : 1 < workers
      · rw [hcompletions hworkers]
      · exact collect_of_one_worker hworkers t _ _)
  rw [(hrun.unique hfound).2, (hrun'.unique hfound').2, heq]

/-- Sources with a file that is not UTF-8, and with some things that a scan does not see. -/
def workingSources : List (String × Node) :=
  [("app.ts", .file [105, 102]), ("bad.ts", .file [255]), ("notes.md", .file [35]),
    ("to", .link "../other"), ("node_modules", .directory [("x.ts", .file [])])]

/-- The same sources after some changes of which a scan sees nothing. -/
def changedSources : List (String × Node) :=
  [("app.ts", .file [105, 102]), ("bad.ts", .file [255]), ("notes.md", .file [255, 254]),
    ("node_modules", .directory [("bad.ts", .file [255]), ("to", .link "..")]),
    ("new", .directory [])]

/-- A tree with the sources. -/
def workingTree : FileTree where
  root := .directory [("src", .directory workingSources), ("other", .file [])]
  cwd := "/"
  proper := by decide

/-- A tree with the changed sources, and with other things elsewhere. -/
def changedTree : FileTree where
  root := .directory [("other", .directory [("app.ts", .file [255])]),
    ("src", .directory changedSources)]
  cwd := "/"
  proper := by decide

/-- A file that is not chosen is rewritten, a directory that is left out gets other entries, a link is
removed, and an empty directory is added. -/
theorem changes_of_sources {policy : Scan.Policy} (hnotes : policy.chosen "src/notes.md" = false)
    (hmodules : policy.pruned "src/node_modules" = true) :
    Relation.ReflTransGen (Change policy "src") (.directory workingSources)
      (.directory changedSources) :=
  .head (@Change.put _ _ _ [] "notes.md" _ _ rfl (by rintro _ ⟨⟩; exact .file _ hnotes)
      (.file [255, 254] hnotes))
    (.head (@Change.inside _ _ _ [] "node_modules" _ _ _ rfl rfl hmodules)
      (.head (@Change.erase _ _ _ [] "to" _ _ rfl rfl (.link _))
        (.single (@Change.put _ _ _ [] "new" _ _ rfl (by rintro _ ⟨⟩) .empty))))

/-- The theorem holds for the sources and the changed sources. -/
theorem run_of_changedTree :
    ∃ outcome ms ms', (run workingTree {} 2 lastFirst "src").run.run [] = (outcome, ms) ∧
      (run changedTree {} 2 lastFirst "src").run.run [] = (outcome, ms') ∧
      warningsOf ms = warningsOf ms' := by
  have hnotes : (Scan.Policy.ofPatterns "/" "src" ({} : Config).includes
      ({} : Config).excludes).chosen "src/notes.md" = false := by decide +kernel
  have hmodules : (Scan.Policy.ofPatterns "/" "src" ({} : Config).includes
      ({} : Config).excludes).pruned "src/node_modules" = true := by decide +kernel
  have hchanges := changes_of_sources hnotes hmodules
  obtain ⟨outcome, ms, ms', hrun, hrun', -, hwarnings⟩ := @run_unseen workingTree changedTree {}
    lastFirst lastFirst "src" _ workingSources changedSources rfl rfl rfl hchanges lastFirst_perm
    lastFirst_perm 2 []
  exact ⟨outcome, ms, ms', hrun, hrun', hwarnings fun _ => rfl⟩

end FlagAudit.Run
