import FlagAudit.Proofs.FileTree.Reencoded
import FlagAudit.Proofs.Run.Unseen

/-!
# Line endings do not matter

A run reads the text of a file with each line ended by a line feed, so it makes no difference how the lines of
a file end (`run_reencoded`), for whatever patterns: the scan does not look into files at all, and both
readings of a file that it lists give the same text.
-/

namespace FlagAudit.Run

open FileTree (Node Reencoded IsReencoding)
open Text (Ending)

variable {t t' : FileTree} {config : Config} {workers : Int}
  {completion completion' : List String → List Nat} {root : String}

/-! ### Trees with the same files and the same texts -/

theorem skippedAt_congr {files : List String} (h : ∀ path ∈ files, t.readText path = t'.readText path) :
    files.flatMap (skippedAt t) = files.flatMap (skippedAt t') := by
  refine List.flatMap_congr fun path hpath => ?_
  rw [skippedAt, skippedAt, h path hpath]

/-- A run ends in the same way and reports the same in two trees in which a scan is the same and lists files
with the same texts. -/
theorem exists_run_of_texts [Regex.CharNames]
    (hscan : Scan.files t root config.includes config.excludes =
      Scan.files t' root config.includes config.excludes)
    (htexts : ∀ files ms, Yields (Scan.files t root config.includes config.excludes) (.ok files) ms →
      ∀ path ∈ files, t.readText path = t'.readText path)
    (workers : Int) (completion : List String → List Nat) :
    ∃ outcome ms, Yields (run t config workers completion root) outcome ms ∧
      Yields (run t' config workers completion root) outcome ms := by
  rcases Scan.files_cases t root config.includes config.excludes with
    ⟨-, files, ms, hfiles, -⟩ | ⟨-, message, path, cause, hfails⟩
  · have hsame := htexts files ms hfiles
    obtain ⟨result, ms', hcollect, -⟩ := exists_yields_collect t config workers (completion files) files
    have hcollect' := collect_congr hsame (completion files) ▸ hcollect
    cases result with
    | error e =>
      exact ⟨_, _, yields_run_of_collect hfiles hcollect, yields_run_of_collect (hscan ▸ hfiles) hcollect'⟩
    | ok share =>
      have hrun' := yields_run (hscan ▸ hfiles) hcollect'
      rw [← deadOf_congr hsame, ← skippedAt_congr hsame] at hrun'
      exact ⟨_, _, yields_run hfiles hcollect, hrun'⟩
  · exact ⟨_, _, yields_run_of_scan hfails, yields_run_of_scan (hscan ▸ hfails)⟩

/-- In whatever order searches are completed, a run ends in the same way. -/
theorem exists_run_of_orders [Regex.CharNames]
    (hcompletion : ∀ files, (completion files).Perm (List.range files.length))
    (hcompletion' : ∀ files, (completion' files).Perm (List.range files.length))
    (t : FileTree) (config : Config) (workers : Int) (root : String) :
    ∃ outcome ms ms', Yields (run t config workers completion root) outcome ms ∧
      Yields (run t config workers completion' root) outcome ms' ∧
      ∀ findings, outcome = .ok findings → (warningsOf ms).Perm (warningsOf ms') := by
  rcases Scan.files_cases t root config.includes config.excludes with
    ⟨-, files, ms, hfiles, hdebug, hnodup⟩ | ⟨-, message, path, cause, hfails⟩
  · exact exists_run_of_completions workers hfiles hdebug hnodup (hcompletion files) (hcompletion' files)
  · exact ⟨_, _, _, yields_run_of_scan hfails, yields_run_of_scan hfails, fun _ _ => List.Perm.refl _⟩

/-! ### Files without carriage returns -/

/-- The files that a scan lists have no carriage return, if they are texts. -/
def ReturnFree (t : FileTree) (config : Config) (root : String) : Prop :=
  ∀ files ms, Yields (Scan.files t root config.includes config.excludes) (.ok files) ms →
    ∀ path ∈ files, ∀ content s, t.readBytes path = .ok content →
      Text.Utf8.decode content = some s → '\r' ∉ s

/-- It is enough that there is none in any file below a directory. -/
theorem returnFree_of_directory {entries : List (String × Node)}
    (hroot : t.find root = .ok (.directory entries))
    (h : ∀ names content s, (Node.directory entries).at? names = some (.file content) →
      Text.Utf8.decode content = some s → '\r' ∉ s) : ReturnFree t config root := by
  intro files ms hfiles path hpath content s hbytes hdecode
  obtain ⟨ms', hscan, -⟩ := Scan.yields_files_of_directory hroot config.includes config.excludes
  cases (hfiles.unique hscan).1
  obtain ⟨names, hsees, rfl⟩ := (Scan.mem_files_iff (FileTree.isProper_of_find hroot)).mp hpath
  obtain ⟨content', hfile⟩ := hsees.isFile
  have hne : names ≠ [] := by
    rintro rfl
    cases hfile
  have hfind := FileTree.find_below hroot hne hfile
  split at hfind
  · rw [FileTree.readBytes, hfind] at hbytes
    cases hbytes
  · rw [FileTree.readBytes_of_file hfind] at hbytes
    cases hbytes
    exact h names content s hfile hdecode

/-- If the files that a scan lists have no carriage return, it makes no difference for a run whether the lines
of any files end by line feeds, by carriage returns or by both. It ends in the same way, with the same
findings if it gives some, and with the same warnings up to their order; it reports the same, if the searches
are completed in the same order. -/
theorem run_reencoded [Regex.CharNames] (hcwd : t.cwd = t'.cwd) (h : Reencoded t.root t'.root)
    (hreturn : ReturnFree t config root)
    (hcompletion : ∀ files, (completion files).Perm (List.range files.length))
    (hcompletion' : ∀ files, (completion' files).Perm (List.range files.length))
    (workers : Int) (log : List Message) :
    ∃ outcome ms ms',
      (run t config workers completion root).run.run log = (outcome, log ++ ms) ∧
      (run t' config workers completion' root).run.run log = (outcome, log ++ ms') ∧
      (∀ findings, outcome = .ok findings → (warningsOf ms).Perm (warningsOf ms')) ∧
      (completion = completion' → ms = ms') := by
  have hscan := Scan.files_sameOutline hcwd h.outlines root config.includes config.excludes
  have htexts : ∀ files ms, Yields (Scan.files t root config.includes config.excludes) (.ok files) ms →
      ∀ path ∈ files, t.readText path = t'.readText path := fun files ms hfiles path hpath =>
    FileTree.readText_reencoded hcwd h (hreturn files ms hfiles path hpath)
  -- Between the two runs is one in the first tree, with the searches in the order of the second run.
  obtain ⟨outcome, ms, ms', hrun, hbetween, hperm⟩ := exists_run_of_orders hcompletion hcompletion' t config
    workers root
  obtain ⟨outcome', ms'', hbetween', hrun'⟩ := exists_run_of_texts hscan htexts workers completion'
  obtain ⟨rfl, rfl⟩ := hbetween.unique hbetween'
  refine ⟨outcome, ms, ms', hrun log, hrun' log, hperm, ?_⟩
  rintro rfl
  exact (hrun.unique hbetween).2

/-- A test of a literal, and an empty line behind it. -/
def testLines : List UInt8 := [105, 102, 40, 49, 41, 10, 10]

/-- A tree with a file of a text and one of a single byte, which is not UTF-8, and a line feed. -/
def feedTree : FileTree where
  root := .directory [("src", .directory [("a.ts", .file testLines), ("b.ts", .file [255, 10])])]
  cwd := "/"
  proper := by decide

/-- The tree with other line endings in both files. -/
def returnTree : FileTree where
  root := .directory [("src", .directory [("a.ts", .file (Ending.encode .returnFeed testLines)),
    ("b.ts", .file (Ending.encode .carriageReturn [255, 10]))])]
  cwd := "/"
  proper := by decide

/-- The theorem holds for the two trees, in which the first files are different. -/
theorem run_of_returnTree :
    Ending.encode .returnFeed testLines ≠ testLines ∧
    ∃ outcome ms, (run feedTree {} 2 lastFirst "src").run.run [] = (outcome, ms) ∧
      (run returnTree {} 2 lastFirst "src").run.run [] = (outcome, ms) := by
  have hreencoded : Reencoded feedTree.root returnTree.root :=
    .directory (.cons ⟨rfl, .directory (.cons ⟨rfl, .file (.inr ⟨.returnFeed, rfl⟩)⟩
      (.cons ⟨rfl, .file (.inr ⟨.carriageReturn, rfl⟩)⟩ .nil))⟩ .nil)
  have hroot : feedTree.find "src" =
    .ok (.directory [("a.ts", .file testLines), ("b.ts", .file [255, 10])]) := rfl
  have hreturn : ReturnFree feedTree {} "src" := by
    have htext : Text.Utf8.decode testLines = some "if(1)\n\n".toList := by decide +kernel
    have hbroken : Text.Utf8.decode [255, 10] = none := by decide +kernel
    refine returnFree_of_directory hroot fun names content s hfile hdecode => ?_
    cases names with
    | nil => cases hfile
    | cons name rest =>
      rw [Node.at?_cons] at hfile
      obtain ⟨child, hchild, hfile⟩ := Option.bind_eq_some_iff.mp hfile
      have hentry := mem_of_lookup hchild
      simp only [Node.entries, List.mem_cons, List.not_mem_nil, or_false, Prod.mk.injEq] at hentry
      rcases hentry with ⟨-, rfl⟩ | ⟨-, rfl⟩ <;> cases rest <;> cases hfile
      · rw [htext] at hdecode
        cases hdecode
        decide
      · rw [hbroken] at hdecode
        cases hdecode
  obtain ⟨outcome, ms, ms', hrun, hrun', -, hsame⟩ := @run_reencoded feedTree returnTree {} lastFirst lastFirst
    "src" _ rfl hreencoded hreturn lastFirst_perm lastFirst_perm 2 []
  obtain rfl := hsame rfl
  exact ⟨by decide, outcome, ms, hrun, hrun'⟩

end FlagAudit.Run
