import FlagAudit.Proofs.Detect.Verdict
import FlagAudit.Proofs.Run.Stages
import FlagAudit.Proofs.Source

/-!
# How a run can end

A run fails if its files cannot be listed, and it fails internally if it comes to search a text for a
pattern that asks for a number that is too large. In all other cases it gives findings, and it has
accounted for each file (`run_ends`): it has searched all of it, or has left it out with a warning.
-/

namespace FlagAudit

/-- A failure to list the files. -/
def Failure.IsScan : Failure → Prop
  | .scan .. => True
  | _ => False

/-- A failure that nothing accounts for. -/
def Failure.IsInternal : Failure → Prop
  | .internal .. => True
  | _ => False

namespace Run

variable {t : FileTree} {config : Config} {completion : List String → List Nat} {root path : String}
  {files : List String}

/-- What of a share is said to be in a file. -/
def Share.within (share : Share) (file : String) : Share :=
  ⟨share.references.filter (·.file == file), share.definitions.filter (·.file == file)⟩

theorem within_append (a b : Share) (file : String) :
    Share.within ⟨a.references ++ b.references, a.definitions ++ b.definitions⟩ file =
      ⟨(a.within file).references ++ (b.within file).references,
        (a.within file).definitions ++ (b.within file).definitions⟩ := by
  simp only [Share.within, List.filter_append]

theorem not_isFileError_overflow (text : String) :
    ¬ (Failure.bare (.overflow text)).IsFileError := by
  simp [Failure.IsFileError, Cause.IsSystemError, Cause.IsValueError]

section

variable [Regex.CharNames]

/-! ### The search of one file -/

/-- If some pattern asks for a number that is too large before any other one fails, the searches of all
files that can be read fail in the same way. -/
theorem search_of_overflowsFirst (h : Detect.overflowsFirst config.patterns = true) :
    ∃ text, ∀ (t : FileTree) (path : String) (content : List Char), t.readText path = .ok content →
      search t config path = .error (.bare (.overflow text)) := by
  obtain ⟨text, htext⟩ := Detect.references_of_overflowsFirst h
  refine ⟨text, fun t path content hread => ?_⟩
  rw [search_of_read hread, htext]
  rfl

/-- A search does not settle exactly if the file can be read and the first pattern that cannot be used
asks for a number that is too large. -/
theorem not_settles_iff : ¬ Settles t config path ↔
    (∃ content, t.readText path = .ok content) ∧
      Detect.overflowsFirst config.patterns = true := by
  cases hread : t.readText path with
  | error c =>
    simp only [reduceCtorEq, exists_false, false_and, iff_false, not_not]
    intro e he
    rw [search_of_unread hread] at he
    cases he
    exact FileTree.cause_of_readText hread
  | ok content =>
    simp only [Except.ok.injEq, exists_eq', true_and]
    constructor
    · intro hnot
      by_contra hoverflows
      refine hnot fun e he => ?_
      rw [search_of_read hread] at he
      cases hreferences : Detect.references content config.patterns config.prefixes path with
      | ok references =>
        rw [hreferences] at he
        cases he
      | error e' =>
        rw [hreferences] at he
        cases he
        exact Detect.isFileError_of_references (Bool.eq_false_of_not_eq_true hoverflows) hreferences
    · intro hoverflows hsettles
      obtain ⟨text, htext⟩ := search_of_overflowsFirst hoverflows
      exact not_isFileError_overflow text (hsettles _ (htext t path content hread))

/-! ### What comes of one file -/

/-- What the search of one file finds; nothing, if it fails. -/
def foundIn (t : FileTree) (config : Config) (path : String) : Share :=
  (search t config path).toOption.getD {}

theorem found_cons (t : FileTree) (config : Config) (path : String) (files : List String) :
    found t config (path :: files) =
      ⟨(foundIn t config path).references ++ (found t config files).references,
        (foundIn t config path).definitions ++ (found t config files).definitions⟩ := by
  rw [found, foundIn, List.filterMap_cons]
  cases (search t config path).toOption <;> rfl

theorem foundIn_of_ok {share : Share} (h : search t config path = .ok share) :
    foundIn t config path = share := by
  rw [foundIn, h]
  rfl

theorem foundIn_of_error {e : Failure} (h : search t config path = .error e) :
    foundIn t config path = {} := by
  rw [foundIn, h]
  rfl

/-- A file is searched for all references and all definitions, or its search fails. -/
theorem search_cases (t : FileTree) (config : Config) (path : String) :
    (∃ content references, t.readText path = .ok content ∧
      Detect.references content config.patterns config.prefixes path = .ok references ∧
      search t config path =
        .ok ⟨references, Detect.definitions content config.prefixes path⟩) ∨
    ∃ e, search t config path = .error e := by
  cases hsearch : search t config path with
  | error e => exact .inr ⟨e, rfl⟩
  | ok share =>
    cases hread : t.readText path with
    | error c =>
      rw [search_of_unread hread] at hsearch
      cases hsearch
    | ok content =>
      rw [search_of_read hread] at hsearch
      cases hreferences : Detect.references content config.patterns config.prefixes path with
      | error e =>
        rw [hreferences] at hsearch
        cases hsearch
      | ok references =>
        rw [hreferences] at hsearch
        exact .inl ⟨content, references, rfl, hreferences, hsearch.symm⟩

/-- What is found in a file is said to be in this file. -/
theorem file_of_foundIn : (∀ r ∈ (foundIn t config path).references, r.file = path) ∧
    ∀ d ∈ (foundIn t config path).definitions, d.file = path := by
  rcases search_cases t config path with ⟨content, references, -, hreferences, hsearch⟩ | ⟨e, he⟩
  · rw [foundIn_of_ok hsearch]
    dsimp only
    exact ⟨Detect.file_of_references hreferences,
      Detect.file_of_definitions content config.prefixes path⟩
  · rw [foundIn_of_error he]
    exact ⟨List.forall_mem_nil _, List.forall_mem_nil _⟩

theorem within_foundIn_self (t : FileTree) (config : Config) (path : String) :
    (foundIn t config path).within path = foundIn t config path := by
  obtain ⟨hreferences, hdefinitions⟩ := @file_of_foundIn t config path _
  rw [Share.within, List.filter_eq_self.mpr fun r hr => beq_iff_eq.mpr (hreferences r hr),
    List.filter_eq_self.mpr fun d hd => beq_iff_eq.mpr (hdefinitions d hd)]

theorem within_foundIn_of_ne {file : String} (h : path ≠ file) :
    (foundIn t config path).within file = {} := by
  obtain ⟨hreferences, hdefinitions⟩ := @file_of_foundIn t config path _
  have hother : ∀ found : String, found = path → ¬ (found == file) = true := by
    rintro _ rfl
    exact fun heq => h (beq_iff_eq.mp heq)
  rw [Share.within, List.filter_eq_nil_iff.mpr fun r hr => hother _ (hreferences r hr),
    List.filter_eq_nil_iff.mpr fun d hd => hother _ (hdefinitions d hd)]

theorem within_found_of_not_mem (h : path ∉ files) : (found t config files).within path = {} := by
  induction files with
  | nil => rfl
  | cons first rest ih =>
    rw [List.mem_cons, not_or] at h
    rw [found_cons, within_append, within_foundIn_of_ne (Ne.symm h.1), ih h.2]
    rfl

/-- What is found in some files and said to be in one of them is what is found in this one. -/
theorem within_found (hnodup : files.Nodup) (hpath : path ∈ files) :
    (found t config files).within path = foundIn t config path := by
  induction files with
  | nil => cases hpath
  | cons first rest ih =>
    rw [List.nodup_cons] at hnodup
    rw [found_cons, within_append]
    rcases List.mem_cons.mp hpath with rfl | hrest
    · rw [within_foundIn_self, within_found_of_not_mem hnodup.1]
      simp
    · have hne : first ≠ path := fun heq => hnodup.1 (heq ▸ hrest)
      rw [within_foundIn_of_ne hne, ih hnodup.2 hrest]
      simp

/-! ### The end of a run -/

/-- The findings account for each file. A file has been searched for all references and all
definitions, or it has been left out: then nothing of it is among the findings, and there is one warning
about it. There are no other warnings. -/
structure Accounts (t : FileTree) (config : Config) (files : List String) (findings : Findings)
    (warnings : List Message) : Prop where
  /-- The findings are those from all files. -/
  findings_eq : findings = Analysis.reconcile (found t config files).references
    (found t config files).definitions (files.flatMap (deadOf t))
  /-- Each file is searched completely or left out. -/
  complete : ∀ path ∈ files,
    (∃ content references, t.readText path = .ok content ∧
      Detect.references content config.patterns config.prefixes path = .ok references ∧
      (found t config files).within path =
        ⟨references, Detect.definitions content config.prefixes path⟩ ∧
      warningAbout t config path = none) ∨
    ∃ e, search t config path = .error e ∧ (found t config files).within path = {} ∧
      warningAbout t config path =
        some ⟨.warning, "Failed to analyze file: " ++ path ++ " (" ++ e.message ++ ")"⟩
  /-- The warnings are those about the files. -/
  warnings_perm : warnings.Perm (files.filterMap (warningAbout t config))

theorem accounts (hnodup : files.Nodup) {warnings : List Message}
    (h : warnings.Perm (files.filterMap (warningAbout t config))) :
    Accounts t config files (Analysis.reconcile (found t config files).references
      (found t config files).definitions (files.flatMap (deadOf t))) warnings := by
  refine ⟨rfl, fun path hpath => ?_, h⟩
  rw [within_found hnodup hpath, warningAbout]
  rcases search_cases t config path with ⟨content, references, hread, hreferences, hsearch⟩ | ⟨e, he⟩
  · rw [foundIn_of_ok hsearch, hsearch]
    exact .inl ⟨content, references, hread, hreferences, rfl, rfl⟩
  · rw [foundIn_of_error he, he]
    exact .inr ⟨e, rfl, rfl, rfl⟩

/-- A pattern that asks for a number that is too large is met in some file. -/
def Overflows (t : FileTree) (config : Config) (files : List String) : Prop :=
  Detect.overflowsFirst config.patterns = true ∧
    ∃ path ∈ files, ∃ content, t.readText path = .ok content

theorem overflows_iff : Overflows t config files ↔ ∃ path ∈ files, ¬ Settles t config path := by
  simp only [Overflows, not_settles_iff]
  tauto

/-- If a pattern asks for a number that is too large, all runs that come to search for it fail
internally, and in the same way. -/
theorem exists_internal (h : Detect.overflowsFirst config.patterns = true) :
    ∃ message cause, ∀ (t : FileTree) (workers : Int) (completion : List String → List Nat)
      (root : String) (files : List String) (ms : List Message),
      Yields (Scan.files t root config.includes config.excludes) (.ok files) ms →
      (completion files).Perm (List.range files.length) → Overflows t config files →
      ∃ ms', Yields (run t config workers completion root) (.error (.internal message cause)) ms' := by
  obtain ⟨text, htext⟩ := search_of_overflowsFirst h
  refine ⟨"Internal error during analysis: " ++ text, .overflow text, ?_⟩
  intro t workers completion root files ms hscan hcompletion hoverflows
  obtain ⟨path, -, e, ms', hsearch, he, hcollect⟩ :=
    yields_collect_of_error hcompletion (overflows_iff.mp hoverflows) workers
  have hsettles : ¬ Settles t config path := fun hsettles => he (hsettles e hsearch)
  obtain ⟨⟨content, hread⟩, -⟩ := not_settles_iff.mp hsettles
  rw [htext t path content hread] at hsearch
  cases hsearch
  exact ⟨_, yields_run_of_collect hscan hcollect⟩

/-- Any other run whose files can be listed gives findings that account for them. -/
theorem yields_run_of_not_overflows {ms : List Message} (workers : Int)
    (hscan : Yields (Scan.files t root config.includes config.excludes) (.ok files) ms)
    (hdebug : ∀ m ∈ ms, m.level = .debug) (hnodup : files.Nodup)
    (hcompletion : (completion files).Perm (List.range files.length))
    (h : ¬ Overflows t config files) :
    ∃ findings ms', Yields (run t config workers completion root) (.ok findings) ms' ∧
      Accounts t config files findings (warningsOf ms') := by
  simp only [overflows_iff, not_exists, not_and, not_not] at h
  have hcollect := yields_collect hcompletion h workers
  refine ⟨_, _, yields_run hscan hcollect, ?_⟩
  rw [warningsOf_run hdebug level_of_skipped, warningsOf_eq_self level_of_warningAt]
  exact accounts hnodup (warningAt_perm hcompletion t config workers)

/-- A run ends in one of three ways, whatever the number of workers and the order in which the searches
are completed. It fails exactly as the scan does, if the root leads to neither a regular file nor a
directory; it fails internally exactly if some file that the scan lists can be read and the first
pattern that cannot be used asks for a number that is too large; otherwise it gives findings, and these
account for each file. -/
theorem run_ends (hcompletion : ∀ files, (completion files).Perm (List.range files.length))
    (t : FileTree) (config : Config) (workers : Int) (root : String) (log : List Message) :
    ∃ listing outcome ms ms',
      (Scan.files t root config.includes config.excludes).run.run log = (listing, log ++ ms) ∧
      (run t config workers completion root).run.run log = (outcome, log ++ ms') ∧
      ((∃ e, listing = .error e) ↔ ¬ Scan.Listable t root) ∧
      (∀ e, outcome = .error e → e.IsScan ∨ e.IsInternal) ∧
      (∀ e, outcome = .error e ∧ e.IsScan ↔ listing = .error e) ∧
      ((∃ e, outcome = .error e ∧ e.IsInternal) ↔
        ∃ files, listing = .ok files ∧ Overflows t config files) ∧
      ∀ findings, outcome = .ok findings →
        ∃ files, listing = .ok files ∧ Accounts t config files findings (warningsOf ms') := by
  rcases Scan.files_cases t root config.includes config.excludes with
    ⟨hlistable, files, ms, hscan, hdebug, hnodup⟩ | ⟨hlistable, message, path, cause, hscan⟩
  · by_cases hoverflows : Overflows t config files
    · obtain ⟨message, cause, hinternal⟩ := exists_internal hoverflows.1
      obtain ⟨ms', hrun⟩ := hinternal t workers completion root files ms hscan (hcompletion files)
        hoverflows
      refine ⟨_, _, ms, ms', hscan log, hrun log, ?_, ?_, fun e => ⟨?_, ?_⟩, ?_, ?_⟩
      · exact iff_of_false (fun ⟨e, he⟩ => nomatch he) (not_not_intro hlistable)
      · rintro e ⟨⟩
        exact .inr trivial
      · rintro ⟨⟨⟩, ⟨⟩⟩
      · rintro ⟨⟩
      · exact iff_of_true ⟨_, rfl, trivial⟩ ⟨files, rfl, hoverflows⟩
      · rintro findings ⟨⟩
    · obtain ⟨findings, ms', hrun, haccounts⟩ := yields_run_of_not_overflows workers hscan hdebug
        hnodup (hcompletion files) hoverflows
      refine ⟨_, _, ms, ms', hscan log, hrun log, ?_, ?_, fun e => ⟨?_, ?_⟩, ⟨?_, ?_⟩, ?_⟩
      · exact iff_of_false (fun ⟨e, he⟩ => nomatch he) (not_not_intro hlistable)
      · rintro e ⟨⟩
      · rintro ⟨⟨⟩, -⟩
      · rintro ⟨⟩
      · rintro ⟨e, ⟨⟩, -⟩
      · rintro ⟨_, ⟨⟩, h⟩
        exact absurd h hoverflows
      · rintro _ ⟨⟩
        exact ⟨files, rfl, haccounts⟩
  · refine ⟨_, _, [], _, hscan log, yields_run_of_scan hscan log, ?_, ?_, fun e => ⟨?_, ?_⟩, ⟨?_, ?_⟩, ?_⟩
    · exact iff_of_true ⟨_, rfl⟩ hlistable
    · rintro e ⟨⟩
      exact .inl trivial
    · rintro ⟨⟨⟩, -⟩
      rfl
    · rintro ⟨⟩
      exact ⟨rfl, trivial⟩
    · rintro ⟨e, ⟨⟩, ⟨⟩⟩
    · rintro ⟨_, ⟨⟩, -⟩
    · rintro findings ⟨⟩

end

/-- A configuration that chooses all files and has a pattern that asks for too many repetitions behind
one that can be used. -/
def tooMany : Config :=
  { includes := [], excludes := [], patterns := ["(a)", "(a)\x7b4294967295\x7d", "("] }

/-- With such a configuration, a run fails internally on a file that can be read, leaves out a file that
is not UTF-8 with a warning, and fails as the scan does if there is no file. -/
theorem run_ends_of_tooMany :
    (∃ e ms, (run mixedTree tooMany 2 lastFirst "good").run.run [] = (.error e, ms) ∧
      e.IsInternal) ∧
    (∃ findings ms, (run mixedTree tooMany 2 lastFirst "bad").run.run [] = (.ok findings, ms) ∧
      (warningsOf ms).length = 1) ∧
    ∃ e ms, (run mixedTree tooMany 2 lastFirst "gone").run.run [] = (.error e, ms) ∧ e.IsScan := by
  refine ⟨?_, ?_, ?_⟩
  · obtain ⟨listing, outcome, ms, ms', hscan, hrun, -, -, -, hinternal, -⟩ :=
      run_ends lastFirst_perm mixedTree tooMany 2 "good" []
    have hlisting : listing = .ok ["good"] := (congrArg Prod.fst hscan).symm
    obtain ⟨e, he, hkind⟩ := hinternal.mpr ⟨["good"], hlisting, by decide +kernel, "good", by decide,
      [], rfl⟩
    exact ⟨e, _, he ▸ hrun, hkind⟩
  · obtain ⟨listing, outcome, ms, ms', hscan, hrun, -, hends, hscanned, hinternal, hok⟩ :=
      run_ends lastFirst_perm mixedTree tooMany 2 "bad" []
    have hlisting : listing = .ok ["bad"] := (congrArg Prod.fst hscan).symm
    have hread : mixedTree.readText "bad" = .error .notUtf8 := rfl
    subst hlisting
    cases outcome with
    | error e =>
      exfalso
      rcases hends e rfl with hkind | hkind
      · cases (hscanned e).mp ⟨rfl, hkind⟩
      · obtain ⟨_, ⟨⟩, -, path, hpath, content, hcontent⟩ := hinternal.mp ⟨e, rfl, hkind⟩
        rw [List.mem_singleton.mp hpath, hread] at hcontent
        cases hcontent
    | ok findings =>
      obtain ⟨_, ⟨⟩, haccounts⟩ := hok findings rfl
      refine ⟨findings, ms', hrun, ?_⟩
      rw [haccounts.warnings_perm.length_eq, List.filterMap_cons, warningAbout, search_of_unread hread]
      rfl
  · obtain ⟨listing, outcome, ms, ms', hscan, hrun, -, -, hscanned, -, -⟩ :=
      run_ends lastFirst_perm mixedTree tooMany 2 "gone" []
    obtain ⟨he, hkind⟩ := (hscanned _).mpr (congrArg Prod.fst hscan).symm
    exact ⟨_, _, he ▸ hrun, hkind⟩

end Run

end FlagAudit
