import FlagAudit.Command.Basic
import FlagAudit.Proofs.Command.Arguments
import FlagAudit.Proofs.Config.Sources
import FlagAudit.Proofs.Run.Stages

/-!
# What comes of the command

Once its arguments are understood, the command comes to an end in one of two ways. If the configuration cannot
be loaded or the run fails, it prints nothing, and its messages name the kind of the failure. Otherwise it
prints the report and a line feed, and none of its messages is about a failure. How it ends is said by the exit
code, which depends on the findings in strict mode only (`run_outcome`). All this holds whatever the readers of
configuration files and the names of characters are.
-/

namespace FlagAudit

/-- The messages about failures among some messages. -/
def errorsOf (messages : List Message) : List Message := messages.filter (·.level == .error)

theorem mem_errorsOf {m : Message} {messages : List Message} :
    m ∈ errorsOf messages ↔ m ∈ messages ∧ m.level = .error := by
  rw [errorsOf, List.mem_filter, beq_iff_eq]

theorem errorsOf_append (messages messages' : List Message) :
    errorsOf (messages ++ messages') = errorsOf messages ++ errorsOf messages' :=
  List.filter_append ..

/-- Messages of another level are not about failures. -/
theorem errorsOf_eq_nil {level : Level} {messages : List Message} (hlevel : level ≠ .error)
    (h : ∀ m ∈ messages, m.level = level) : errorsOf messages = [] := by
  rw [errorsOf, List.filter_eq_nil_iff]
  intro m hm
  rw [beq_iff_eq, h m hm]
  exact hlevel

namespace Run

/-- Whatever comes of a run, it does not report a failure itself. -/
theorem exists_yields_run [Regex.CharNames] (t : FileTree) (config : Config) (workers : Int)
    (completion : List String → List Nat) (root : String) :
    ∃ result ms, Yields (run t config workers completion root) result ms ∧ errorsOf ms = [] := by
  have hopening : errorsOf (opening config root) = [] := rfl
  rcases Scan.files_cases t root config.includes config.excludes with
    ⟨-, files, ms, hscan, hdebug, -⟩ | ⟨-, message, path, cause, hscan⟩
  · obtain ⟨result, ms', hcollect, hwarning⟩ :=
      exists_yields_collect t config workers (completion files) files
    have hfound : errorsOf [foundMessage files] = [] := rfl
    have hms := errorsOf_eq_nil (by decide) hdebug
    have hms' := errorsOf_eq_nil (by decide) hwarning
    cases result with
    | error e =>
      refine ⟨_, _, yields_run_of_collect hscan hcollect, ?_⟩
      rw [← List.singleton_append, errorsOf_append, errorsOf_append, errorsOf_append, hopening, hms, hfound,
        hms']
      rfl
    | ok share =>
      have hskipped : errorsOf (files.flatMap (skippedAt t)) = [] :=
        errorsOf_eq_nil (by decide) level_of_skipped
      refine ⟨_, _, yields_run hscan hcollect, ?_⟩
      rw [← List.singleton_append, errorsOf_append, errorsOf_append, errorsOf_append, errorsOf_append,
        hopening, hms, hfound, hms', hskipped]
      rfl
  · refine ⟨_, _, yields_run_of_scan hscan, ?_⟩
    rw [List.append_nil, hopening]

end Run

namespace Command

variable {t : FileTree} {completion : List String → List Nat} {o : Options} {e : Failure} {config : Config}
  {findings : Findings} {messages : List Message}

/-! ### Kinds of failures -/

/-- A kind of failures, as messages tell them apart. -/
inductive Category where
  /-- The configuration cannot be used. -/
  | configuration
  /-- The files cannot be listed. -/
  | scan
  /-- The run has met with something that nothing accounts for. -/
  | internal
  /-- Anything else. -/
  | unexpected
  deriving DecidableEq, Repr

/-- The words in front of a message about a failure. -/
def Category.heading : Category → String
  | .configuration => "Configuration error: "
  | .scan => "Scan error: "
  | .internal => "Internal error: "
  | .unexpected => "Unexpected error: "

/-- The kind of a failure. -/
def categoryOf : Failure → Category
  | .configuration .. => .configuration
  | .scan .. => .scan
  | .internal .. => .internal
  | .pattern .. | .bare _ => .unexpected

/-- The message that says where the configuration is that cannot be used. -/
def placeOf : Failure → List Message
  | .configuration _ (some path) _ => if path.isEmpty then [] else [⟨.error, "Config path: " ++ path⟩]
  | _ => []

/-- The messages about a failure: its kind and its wording, and where the configuration is. -/
def errorsFor (e : Failure) : List Message :=
  ⟨.error, (categoryOf e).heading ++ e.message⟩ :: placeOf e

theorem errorsOf_failureMessages (e : Failure) : errorsOf (failureMessages e) = errorsFor e := by
  cases e with
  | configuration message path cause =>
    cases path with
    | none => rfl
    | some path =>
      rw [failureMessages, errorsFor, placeOf]
      split <;> rfl
  | _ => rfl

/-- Some messages are about a failure of a kind. -/
def Announces (messages : List Message) (category : Category) : Prop :=
  ∃ text, ⟨.error, category.heading ++ text⟩ ∈ messages

/-- The first letter of a heading. -/
def Category.initial : Category → Char
  | .configuration => 'C'
  | .scan => 'S'
  | .internal => 'I'
  | .unexpected => 'U'

theorem head?_heading_append (c : Category) (s : String) :
    (c.heading ++ s).toList.head? = some c.initial := by
  rw [String.toList_append, List.head?_append]
  cases c <;> rfl

/-- Kinds of failures are told apart by the first letters of their headings. -/
theorem eq_of_initial_eq {c c' : Category} (h : c.initial = c'.initial) : c = c' := by
  revert h
  cases c <;> cases c' <;> decide

theorem eq_of_heading_append {c c' : Category} {s s' : String} (h : c.heading ++ s = c'.heading ++ s') :
    c = c' := by
  have hhead := congrArg (·.toList.head?) h
  rw [head?_heading_append, head?_heading_append] at hhead
  exact eq_of_initial_eq (Option.some.inj hhead)

/-- What says where a configuration is does not start as a message about another kind of failures. -/
theorem eq_categoryOf_of_mem_placeOf {c : Category} {s : String}
    (h : ⟨.error, c.heading ++ s⟩ ∈ placeOf e) : c = categoryOf e := by
  cases e with
  | configuration message path cause =>
    cases path with
    | none => cases h
    | some path =>
      rw [placeOf] at h
      split at h
      · cases h
      · rw [List.mem_singleton, Message.mk.injEq] at h
        have hhead := congrArg (·.toList.head?) h.2
        rw [head?_heading_append, String.toList_append, List.head?_append] at hhead
        exact eq_of_initial_eq (Option.some.inj hhead)
  | _ => cases h

/-- The messages about a failure name its kind and no other one. -/
theorem announces_iff (h : errorsOf messages = errorsFor e) (category : Category) :
    Announces messages category ↔ category = categoryOf e := by
  have hmem : ∀ text, ⟨.error, category.heading ++ text⟩ ∈ messages ↔
      ⟨.error, category.heading ++ text⟩ ∈ errorsFor e := by
    intro text
    rw [← h, mem_errorsOf, and_iff_left rfl]
  simp only [Announces, hmem, errorsFor, List.mem_cons]
  constructor
  · rintro ⟨text, hfirst | hplace⟩
    · exact eq_of_heading_append (congrArg Message.text hfirst)
    · exact eq_categoryOf_of_mem_placeOf hplace
  · rintro rfl
    exact ⟨e.message, .inl rfl⟩

/-- Messages about failures are always shown. -/
theorem errorsOf_shown (verbose : Bool) (messages : List Message) :
    errorsOf (shown verbose messages) = errorsOf messages := by
  rw [errorsOf, shown, List.filter_filter, errorsOf]
  refine List.filter_congr fun m _ => ?_
  cases m.level <;> simp

/-! ### Stages of the command -/

section Stages

variable [Regex.CharNames]

/-- The run that options ask for, under a configuration. -/
def runOf (t : FileTree) (completion : List String → List Nat) (o : Options) (config : Config) :
    Audit Findings :=
  Run.run t config (max 1 o.workers) completion (Path.absolute t.cwd o.path)

variable [Config.Readers]

/-- The configuration cannot be loaded, or the run fails. -/
def FailsWith (t : FileTree) (completion : List String → List Nat) (o : Options) (e : Failure) : Prop :=
  Config.load t { path := o.config, excludes := o.ignore, strict := o.strict } = .error e ∨
    ∃ config ms, Config.load t { path := o.config, excludes := o.ignore, strict := o.strict } = .ok config ∧
      Yields (runOf t completion o config) (.error e) ms

/-- The configuration is loaded, and the run gives some findings. -/
def Finds (t : FileTree) (completion : List String → List Nat) (o : Options) (config : Config)
    (findings : Findings) : Prop :=
  Config.load t { path := o.config, excludes := o.ignore, strict := o.strict } = .ok config ∧
    ∃ ms, Yields (runOf t completion o config) (.ok findings) ms

/-- The command does nothing besides its stages. -/
theorem yields_audit {result : Except Failure Findings} {ms : List Message}
    (hload : Config.load t (request o) = .ok config) (hrun : Yields (runOf t completion o config) result ms) :
    Yields (audit t completion o) (result.map (config, ·)) ms := by
  have hconfig : Yields (ExceptT.mk (pure (Config.load t (request o)))) (.ok config) [] :=
    hload ▸ .result (Config.load t (request o))
  rw [audit]
  cases result with
  | error e => exact hconfig.bind (hrun.bind_error _)
  | ok findings =>
    rw [← List.nil_append ms, ← List.append_nil ms]
    exact hconfig.bind (hrun.bind (.pure _))

theorem yields_audit_of_load (hload : Config.load t (request o) = .error e) :
    Yields (audit t completion o) (.error e) [] := by
  have hconfig : Yields (ExceptT.mk (pure (Config.load t (request o)))) (.error e) [] :=
    hload ▸ .result (Config.load t (request o))
  rw [audit]
  exact hconfig.bind_error _

/-- How the stages end is how the command does its work. -/
theorem FailsWith.yields (h : FailsWith t completion o e) : ∃ ms, Yields (audit t completion o) (.error e) ms := by
  rcases h with hload | ⟨config, ms, hload, hrun⟩
  · exact ⟨[], yields_audit_of_load hload⟩
  · exact ⟨ms, yields_audit hload hrun⟩

theorem Finds.yields (h : Finds t completion o config findings) :
    ∃ ms, Yields (audit t completion o) (.ok (config, findings)) ms := by
  obtain ⟨hload, ms, hrun⟩ := h
  exact ⟨ms, yields_audit hload hrun⟩

theorem FailsWith.unique {e' : Failure} (h : FailsWith t completion o e)
    (h' : FailsWith t completion o e') : e = e' := by
  obtain ⟨ms, hyields⟩ := h.yields
  obtain ⟨ms', hyields'⟩ := h'.yields
  exact Except.error.inj (hyields.unique hyields').1

theorem Finds.unique {config' : Config} {findings' : Findings} (h : Finds t completion o config findings)
    (h' : Finds t completion o config' findings') : config = config' ∧ findings = findings' := by
  obtain ⟨ms, hyields⟩ := h.yields
  obtain ⟨ms', hyields'⟩ := h'.yields
  exact Prod.mk.inj (Except.ok.inj (hyields.unique hyields').1)

theorem FailsWith.not_finds (h : FailsWith t completion o e) : ¬ Finds t completion o config findings := by
  intro hfinds
  obtain ⟨ms, hyields⟩ := h.yields
  obtain ⟨ms', hyields'⟩ := hfinds.yields
  cases (hyields.unique hyields').1

theorem runWith_of_error {ms : List Message} (h : Yields (audit t completion o) (.error e) ms) :
    runWith t completion o = .done .failure "" (shown o.verbose (ms ++ failureMessages e)) := by
  rw [runWith, h []]
  rfl

theorem runWith_of_ok {ms : List Message} (h : Yields (audit t completion o) (.ok (config, findings)) ms) :
    runWith t completion o = .done (Report.exitFor config.strict findings)
      (Report.render ⟨o.json, o.ci, o.verbose⟩ findings ++ "\n") (shown o.verbose ms) := by
  rw [runWith, h []]
  rfl

/-- A stage fails, and that is all that is reported, or all stages give what they have to give. -/
theorem runWith_cases (t : FileTree) (completion : List String → List Nat) (o : Options) :
    (∃ e messages, FailsWith t completion o e ∧ runWith t completion o = .done .failure "" messages ∧
      errorsOf messages = errorsFor e) ∨
    ∃ config findings messages, Finds t completion o config findings ∧
      runWith t completion o = .done (Report.exitFor config.strict findings)
        (Report.render ⟨o.json, o.ci, o.verbose⟩ findings ++ "\n") messages ∧
      errorsOf messages = [] := by
  cases hload : Config.load t (request o) with
  | error e =>
    refine .inl ⟨e, _, .inl hload, runWith_of_error (yields_audit_of_load hload), ?_⟩
    rw [errorsOf_shown, List.nil_append, errorsOf_failureMessages]
  | ok config =>
    obtain ⟨result, ms, hrun, hms⟩ := Run.exists_yields_run t config (max 1 o.workers) completion
      (Path.absolute t.cwd o.path)
    have haudit : Yields (audit t completion o) (result.map (config, ·)) ms := yields_audit hload hrun
    cases result with
    | error e =>
      refine .inl ⟨e, _, .inr ⟨config, ms, hload, hrun⟩, runWith_of_error haudit, ?_⟩
      rw [errorsOf_shown, errorsOf_append, hms, List.nil_append, errorsOf_failureMessages]
    | ok findings =>
      refine .inr ⟨config, findings, _, ⟨hload, ms, hrun⟩, runWith_of_ok haudit, ?_⟩
      rw [errorsOf_shown, hms]

end Stages

/-! ### How the command ends -/

theorem hasIssues_iff :
    findings.hasIssues = true ↔ findings.unused ≠ [] ∨ findings.missing ≠ [] ∨ findings.dead ≠ [] := by
  rw [Findings.hasIssues, Bool.not_eq_true', Bool.and_eq_false_iff, Bool.and_eq_false_iff, or_assoc,
    List.isEmpty_eq_false_iff, List.isEmpty_eq_false_iff, List.isEmpty_eq_false_iff]

theorem code_exitFor_eq_one_iff {strict : Bool} :
    (Report.exitFor strict findings).code = 1 ↔ strict = true ∧ findings.hasIssues = true := by
  rw [Report.exitFor, ← Bool.and_eq_true]
  split
  · next h => simp [h, Report.Exit.code]
  · next h => simp [h, Report.Exit.code]

theorem code_exitFor_ne_two {strict : Bool} : (Report.exitFor strict findings).code ≠ 2 := by
  rw [Report.exitFor]
  split <;> decide

/-- A tree with nothing in it. -/
def emptyTree : FileTree where
  root := .directory []
  cwd := "/"
  proper := rfl

end Command

end FlagAudit
