import FlagAudit.Proofs.Message
import FlagAudit.Proofs.Scan

/-!
# The stages of a run

Each stage of a run gives something and adds messages to those that are there. What the whole run gives
and reports is put together from this, for each way in which a run can end.
-/

namespace FlagAudit

/-- The warnings among some messages. -/
def warningsOf (messages : List Message) : List Message := messages.filter (·.level == .warning)

theorem warningsOf_append (messages messages' : List Message) :
    warningsOf (messages ++ messages') = warningsOf messages ++ warningsOf messages' :=
  List.filter_append ..

/-- Messages on the way are no warnings. -/
theorem warningsOf_eq_nil {messages : List Message} (h : ∀ m ∈ messages, m.level = .debug) :
    warningsOf messages = [] := by
  rw [warningsOf, List.filter_eq_nil_iff]
  intro m hm
  rw [h m hm]
  decide

theorem warningsOf_eq_self {messages : List Message} (h : ∀ m ∈ messages, m.level = .warning) :
    warningsOf messages = messages := by
  rw [warningsOf, List.filter_eq_self]
  intro m hm
  rw [h m hm]
  rfl

/-! ### Listing the files -/

namespace Scan

open FileTree (Node)

/-- A root whose files can be listed: it leads to a regular file or to a directory. -/
def Listable (t : FileTree) (root : String) : Prop :=
  ∃ node, t.find root = .ok node ∧ (node.isFile = true ∨ node.isDirectory = true)

/-- A scan of a directory lists the files that a walk sees, and only reports what is of interest on the
way. -/
theorem yields_files_of_directory {t : FileTree} {root : String} {entries : List (String × Node)}
    (h : t.find root = .ok (.directory entries)) (includes excludes : List String) :
    ∃ ms, Yields (files t root includes excludes)
        (.ok (((inOrder (sightsBelow (.ofPatterns t.cwd root includes excludes) root
          entries)).filterMap Sight.file?).mergeSort)) ms ∧
      ∀ m ∈ ms, m.level = .debug := by
  rw [files, h]
  refine ⟨_, fun log => rfl, fun m hm => ?_⟩
  obtain ⟨sight, -, hm⟩ := List.mem_filterMap.mp hm
  cases sight with
  | file path => cases hm
  | pruned path =>
    cases hm
    rfl

/-- A scan lists different files and only reports what is of interest on the way, or it fails because
its root cannot be listed. -/
theorem files_cases (t : FileTree) (root : String) (includes excludes : List String) :
    (Listable t root ∧ ∃ paths ms, Yields (files t root includes excludes) (.ok paths) ms ∧
        (∀ m ∈ ms, m.level = .debug) ∧ paths.Nodup) ∨
      (¬ Listable t root ∧ ∃ message path cause,
        Yields (files t root includes excludes) (.error (.scan message path cause)) []) := by
  rw [Listable]
  cases hroot : t.find root with
  | error c =>
    rw [files, hroot]
    refine .inr ⟨?_, _, _, _, .throw _⟩
    rintro ⟨node, hnode, -⟩
    cases hnode
  | ok node =>
    cases node with
    | file content =>
      rw [files, hroot]
      have hchosen : ∀ chosen : Bool, (if chosen then [root] else []).Nodup := by
        intro chosen
        cases chosen
        · exact List.nodup_nil
        · exact List.nodup_singleton root
      exact .inl ⟨⟨_, rfl, .inl rfl⟩, _, _, .pure _, List.forall_mem_nil _, hchosen _⟩
    | directory entries =>
      obtain ⟨ms, hyields, hdebug⟩ := yields_files_of_directory hroot includes excludes
      exact .inl ⟨⟨_, rfl, .inr rfl⟩, _, ms, hyields, hdebug,
        (pairwise_files (FileTree.isProper_of_find hroot)).imp ne_of_lt⟩
    | _ =>
      rw [files, hroot]
      refine .inr ⟨?_, _, _, _, .throw _⟩
      rintro ⟨node, hnode, hkind⟩
      cases hnode
      cases hkind <;> contradiction

end Scan

namespace Run

variable {t : FileTree} {config : Config} {workers : Int} {completion : List String → List Nat}
  {root : String} {files : List String}

/-! ### Searching the files -/

section

variable [Regex.CharNames]

theorem level_of_warningAbout (t : FileTree) (config : Config) (path : String) :
    ∀ m ∈ (warningAbout t config path).toList, m.level = .warning := by
  intro m hm
  rw [warningAbout] at hm
  split at hm
  · cases hm
  · rw [Option.toList_some, List.mem_singleton] at hm
    rw [hm]

/-- Whatever comes of the files, settling them only adds warnings. -/
theorem exists_yields_settleAll (t : FileTree) (config : Config) (files : List String)
    (order : List Nat) : ∃ result ms, Yields (settleAll t config files order) result ms ∧
      ∀ m ∈ ms, m.level = .warning := by
  induction order with
  | nil => exact ⟨_, _, .pure [], List.forall_mem_nil _⟩
  | cons i rest ih =>
    obtain ⟨result, ms, hrest, hwarning⟩ := ih
    rw [settleAll]
    cases files[i]? with
    | none => exact ⟨result, ms, hrest, hwarning⟩
    | some path =>
      by_cases hsettles : Settles t config path
      · have hwarnings := List.forall_mem_append.mpr ⟨level_of_warningAbout t config path, hwarning⟩
        cases result with
        | ok others =>
          refine ⟨_, _, .bind (run_settle hsettles) (.bind hrest (.pure _)), ?_⟩
          rw [List.append_nil]
          exact hwarnings
        | error e => exact ⟨_, _, .bind (run_settle hsettles) (hrest.bind_error _), hwarnings⟩
      · rw [Settles, not_forall₂] at hsettles
        obtain ⟨e, hsearch, he⟩ := hsettles
        have hsettle : Yields (settle t config path) (.error e) [] := fun log => by
          rw [run_settle_of_error hsearch he, List.append_nil]
        exact ⟨_, _, hsettle.bind_error _, List.forall_mem_nil _⟩

theorem exists_yields_collect (t : FileTree) (config : Config) (workers : Int) (order : List Nat)
    (files : List String) : ∃ result ms, Yields (collect t config workers order files) result ms ∧
      ∀ m ∈ ms, m.level = .warning := by
  obtain ⟨result, ms, hsettle, hwarning⟩ := exists_yields_settleAll t config files
    (settlingOrder workers order files)
  rw [collect]
  cases result with
  | ok settled =>
    refine ⟨_, _, .bind hsettle (.pure _), ?_⟩
    rw [List.append_nil]
    exact hwarning
  | error e => exact ⟨_, _, hsettle.bind_error _, hwarning⟩

/-- What the searches of some files find, in the order of the files. -/
def found (t : FileTree) (config : Config) (files : List String) : Share :=
  .join (files.filterMap fun path => (search t config path).toOption)

/-- If all searches settle, all that they find is collected, and each file whose search fails gives a
warning. -/
theorem yields_collect {order : List Nat} (horder : order.Perm (List.range files.length))
    (h : ∀ path ∈ files, Settles t config path) (workers : Int) :
    Yields (collect t config workers order files) (.ok (found t config files))
      ((settlingOrder workers order files).filterMap (warningAt t config files)) := by
  have hperm := settlingOrder_perm horder workers
  have hsettles : ∀ i ∈ settlingOrder workers order files,
      ∃ path, files[i]? = some path ∧ Settles t config path := by
    intro i hi
    have hlt := List.mem_range.mp (hperm.mem_iff.mp hi)
    exact ⟨files[i], List.getElem?_eq_getElem hlt, h _ (List.getElem_mem hlt)⟩
  rw [collect, found, ← inFileOrder_eq hperm,
    ← List.append_nil ((settlingOrder workers order files).filterMap (warningAt t config files))]
  exact .bind (run_settleAll hsettles) (.pure _)

/-- The warnings about the files are those about each, in the order in which they are settled. -/
theorem warningAt_perm {order : List Nat} (horder : order.Perm (List.range files.length))
    (t : FileTree) (config : Config) (workers : Int) :
    ((settlingOrder workers order files).filterMap (warningAt t config files)).Perm
      (files.filterMap (warningAbout t config)) := by
  rw [← filterMap_range_eq files]
  exact (settlingOrder_perm horder workers).filterMap _

theorem level_of_warningAt {order : List Nat} :
    ∀ m ∈ order.filterMap (warningAt t config files), m.level = .warning := by
  intro m hm
  obtain ⟨i, -, hat⟩ := List.mem_filterMap.mp hm
  obtain ⟨path, -, habout⟩ := Option.bind_eq_some_iff.mp hat
  exact level_of_warningAbout t config path m (Option.mem_toList.mpr habout)

/-- If the search of some file does not settle, nothing is collected. -/
theorem yields_collect_of_error {order : List Nat} (horder : order.Perm (List.range files.length))
    (h : ∃ path ∈ files, ¬ Settles t config path) (workers : Int) :
    ∃ path ∈ files, ∃ e ms, search t config path = .error e ∧ ¬ e.IsFileError ∧
      Yields (collect t config workers order files) (.error e) ms := by
  have hperm := settlingOrder_perm horder workers
  obtain ⟨path, hpath, hfails⟩ := h
  obtain ⟨i, hi, hat⟩ := List.mem_iff_getElem.mp hpath
  obtain ⟨path', hpath', e, log', hsearch, he, hrun⟩ := run_settleAll_of_error
    (fun i hi => List.mem_range.mp (hperm.mem_iff.mp hi))
    ⟨i, hperm.mem_iff.mpr (List.mem_range.mpr hi), path,
      List.getElem?_eq_some_iff.mpr ⟨hi, hat⟩, hfails⟩ []
  obtain ⟨result, ms, hyields, -⟩ := exists_yields_settleAll t config files
    (settlingOrder workers order files)
  have hresult : result = .error e := congrArg Prod.fst ((hyields []).symm.trans hrun)
  rw [hresult] at hyields
  exact ⟨path', hpath', e, ms, hsearch, he, hyields.bind_error _⟩

end

/-! ### Looking at the files again -/

/-- The dead conditionals that are found in a file. -/
def deadOf (t : FileTree) (path : String) : List DeadConditional :=
  match t.readText path with
  | .ok content => Detect.deadConditionals content path
  | .error _ => []

/-- What is reported about a file that has no dead conditionals because it cannot be read. -/
def skippedAt (t : FileTree) (path : String) : List Message :=
  match t.readText path with
  | .ok _ => []
  | .error c => [⟨.debug, "Skipping dead-conditional pass for " ++ path ++ ": " ++ c.text⟩]

theorem reports_deadConditionalsIn (t : FileTree) (path : String) :
    Reports (deadConditionalsIn t path) (deadOf t path) (skippedAt t path) := by
  rw [deadConditionalsIn, deadOf, skippedAt]
  cases t.readText path with
  | ok content => exact .pure _
  | error c => exact .bind (.report _ _) (.pure _)

/-- What is found is reconciled, with the dead conditionals of all files that can be read. -/
theorem reports_analyze (t : FileTree) (files : List String) (references : List Reference)
    (definitions : List Definition) :
    Reports (analyze t files references definitions)
      (Analysis.reconcile references definitions (files.flatMap (deadOf t)))
      (files.flatMap (skippedAt t)) := by
  rw [analyze, List.flatMap_def, ← List.append_nil (files.flatMap (skippedAt t))]
  exact .bind (.mapM (reports_deadConditionalsIn t) files) (.pure _)

theorem level_of_skipped : ∀ m ∈ files.flatMap (skippedAt t), m.level = .debug := by
  intro m hm
  obtain ⟨path, -, hm⟩ := List.mem_flatMap.mp hm
  rw [skippedAt] at hm
  split at hm
  · cases hm
  · rw [List.mem_singleton.mp hm]

/-! ### The whole run -/

/-- What a run reports before it lists the files. -/
def opening (config : Config) (root : String) : List Message :=
  [⟨.debug, "Scanning files in: " ++ root⟩,
    ⟨.debug, "Include patterns: " ++ ", ".intercalate config.includes⟩,
    ⟨.debug, "Exclude patterns: " ++ ", ".intercalate config.excludes⟩]

/-- What a run reports when it has listed the files. -/
def foundMessage (files : List String) : Message :=
  ⟨.debug, "Found " ++ toString files.length ++ " files to analyze"⟩

section

variable [Regex.CharNames]

/-- A failure of a step ends the run; a cause that nothing accounts for becomes an internal one. -/
theorem yields_run_of_steps {e : Failure} {ms : List Message}
    (h : Yields (steps t config workers completion root) (.error e) ms) :
    Yields (run t config workers completion root) (.error (asInternal e)) ms := by
  rw [run, ← List.append_nil ms]
  exact .tryCatch h (.throw _)

/-- A run whose files cannot be listed fails. -/
theorem yields_run_of_scan {e : Failure} {ms : List Message}
    (h : Yields (Scan.files t root config.includes config.excludes) (.error e) ms) :
    Yields (run t config workers completion root) (.error (asInternal e))
      (opening config root ++ ms) :=
  yields_run_of_steps (.report _ _ (.report _ _ (.report _ _ (h.bind_error _))))

/-- A run fails if the searches of its files end with a failure. -/
theorem yields_run_of_collect {e : Failure} {ms ms' : List Message}
    (hscan : Yields (Scan.files t root config.includes config.excludes) (.ok files) ms)
    (h : Yields (collect t config workers (completion files) files) (.error e) ms') :
    Yields (run t config workers completion root) (.error (asInternal e))
      (opening config root ++ (ms ++ foundMessage files :: ms')) :=
  yields_run_of_steps (.report _ _ (.report _ _ (.report _ _ (hscan.bind (.report _ _
    (h.bind_error _))))))

/-- Otherwise a run reconciles what has been collected. -/
theorem yields_run {share : Share} {ms ms' : List Message}
    (hscan : Yields (Scan.files t root config.includes config.excludes) (.ok files) ms)
    (h : Yields (collect t config workers (completion files) files) (.ok share) ms') :
    Yields (run t config workers completion root)
      (.ok (Analysis.reconcile share.references share.definitions (files.flatMap (deadOf t))))
      (opening config root ++ (ms ++ foundMessage files :: (ms' ++ files.flatMap (skippedAt t)))) :=
  .tryCatch_ok _ (.report _ _ (.report _ _ (.report _ _ (hscan.bind (.report _ _
    (h.bind (.lift (reports_analyze t files _ _))))))))

end

/-- The warnings of a run are those of the searches of its files. -/
theorem warningsOf_run {ms ms' ms'' : List Message} (h : ∀ m ∈ ms, m.level = .debug)
    (h'' : ∀ m ∈ ms'', m.level = .debug) :
    warningsOf (opening config root ++ (ms ++ foundMessage files :: (ms' ++ ms''))) =
      warningsOf ms' := by
  rw [warningsOf_append, warningsOf_append, ← List.singleton_append, warningsOf_append,
    warningsOf_append, warningsOf_eq_nil h, warningsOf_eq_nil h'']
  simp [warningsOf, opening, foundMessage]

end Run

end FlagAudit
