import FlagAudit.Proofs.Detect.Assignment
import FlagAudit.Proofs.Sorted
import FlagAudit.Run
import FlagAudit.Surroundings

/-!
# Collecting from several files

The searches of the files are settled in the order in which they are completed, and what comes of
them is put in the order of the files afterwards. So the order of completion only shows in the order
of the warnings, and a file that fails takes nothing away from the others.
-/

namespace FlagAudit

/-- A cause that comes from the file system. -/
def Cause.IsSystemError (c : Cause) : Prop :=
  c = .missingFile ∨ c = .isDirectory ∨ c = .notDirectory ∨ c = .refused

/-- A cause that is a bad value: of a setting, of a text in some notation, or of bytes. -/
def Cause.IsValueError (c : Cause) : Prop :=
  c = .notUtf8 ∨ c = .badJson ∨ c = .badToml ∨ ∃ text, c = .badValue text

/-- A failure that isolates the file it concerns: a pattern that cannot be used, the file system, or
a bad value. -/
def Failure.IsFileError : Failure → Prop
  | .pattern .. => True
  | .bare c => c.IsSystemError ∨ c.IsValueError
  | _ => False

theorem Failure.concernsFile_iff {e : Failure} : e.concernsFile = true ↔ e.IsFileError := by
  cases e with
  | bare c =>
    cases c <;> simp [concernsFile, Cause.concernsFile, IsFileError, Cause.IsSystemError,
      Cause.IsValueError]
  | _ => simp [concernsFile, IsFileError]

namespace Run

variable {t : FileTree} {config : Config} {files : List String}

/-- A computation that reports messages goes on with the messages of its first part, unless that
fails. -/
theorem run_bind {α β : Type} (x : Audit α) (f : α → Audit β) (log : List Message) :
    (x >>= f).run.run log =
      match x.run.run log with
      | (.ok a, log') => (f a).run.run log'
      | (.error e, log') => (.error e, log') := by
  change (do let r ← x.run; ExceptT.bindCont f r : Reporting (Except Failure β)).run log = _
  rw [StateT.run_bind]
  cases x.run.run log with
  | mk result log' => cases result <;> rfl

/-- However many workers there are, each file is settled once. -/
theorem settlingOrder_perm {completion : List Nat}
    (h : completion.Perm (List.range files.length)) (workers : Int) :
    (settlingOrder workers completion files).Perm (List.range files.length) := by
  rw [settlingOrder]
  split
  · exact h
  · exact List.Perm.refl _

theorem lastFirst_perm (files : List String) :
    (lastFirst files).Perm (List.range files.length) := List.reverse_perm _

/-- What is there for the indices of a list is what is there for its elements. -/
theorem filterMap_range_eq {α β : Type} (l : List α) (f : α → Option β) :
    ((List.range l.length).filterMap fun i => l[i]?.bind f) = l.filterMap f := by
  induction l with
  | nil => rfl
  | cons x xs ih =>
    rw [List.length_cons, List.range_succ_eq_map, List.filterMap_cons, List.filterMap_map,
      List.filterMap_cons]
    simp only [Function.comp_def, List.getElem?_cons_zero, List.getElem?_cons_succ,
      Option.bind_some, ih]

section Searching

variable [Regex.CharNames]

/-! ### One file -/

theorem search_of_unread {path : String} {c : Cause} (h : t.readText path = .error c) :
    search t config path = .error (.bare c) := by
  rw [search, readSource, h]
  rfl

/-- The text of a file decides how its search ends. -/
theorem search_of_read {path : String} {content : List Char} (h : t.readText path = .ok content) :
    search t config path =
      (Detect.references content config.patterns config.prefixes path).map fun references =>
        ⟨references, Detect.definitions content config.prefixes path⟩ := by
  rw [search, readSource, h]
  change (do
    let references ← Detect.references content config.patterns config.prefixes path
    return (⟨references, Detect.definitions content config.prefixes path⟩ : Share)) = _
  cases Detect.references content config.patterns config.prefixes path <;> rfl

/-- The warning about a file whose search fails. -/
def warningAbout (t : FileTree) (config : Config) (path : String) : Option Message :=
  match search t config path with
  | .ok _ => none
  | .error e => some ⟨.warning, "Failed to analyze file: " ++ path ++ " (" ++ e.message ++ ")"⟩

/-- A search that does not fail, or fails in a way that isolates the file. -/
def Settles (t : FileTree) (config : Config) (path : String) : Prop :=
  ∀ e, search t config path = .error e → e.IsFileError

/-- A search that settles gives what it finds or a warning. -/
theorem run_settle {path : String} (h : Settles t config path) (log : List Message) :
    (settle t config path).run.run log =
      (.ok (search t config path).toOption, log ++ (warningAbout t config path).toList) := by
  rw [settle, warningAbout]
  cases hsearch : search t config path with
  | ok share =>
    rw [Option.toList_none, List.append_nil]
    rfl
  | error e =>
    simp only [Failure.concernsFile_iff.mpr (h e hsearch)]
    rfl

/-- Any other failure is passed on. -/
theorem run_settle_of_error {path : String} {e : Failure} (h : search t config path = .error e)
    (he : ¬ e.IsFileError) (log : List Message) :
    (settle t config path).run.run log = (.error e, log) := by
  rw [← Failure.concernsFile_iff, Bool.not_eq_true] at he
  rw [settle, h]
  simp only [he]
  rfl

/-! ### All files -/

/-- What is put down for the file with an index. -/
def entryAt (t : FileTree) (config : Config) (files : List String) (i : Nat) :
    Option (Nat × Share) :=
  files[i]?.bind fun path => (search t config path).toOption.map (i, ·)

/-- The warning about the file with an index. -/
def warningAt (t : FileTree) (config : Config) (files : List String) (i : Nat) : Option Message :=
  files[i]?.bind (warningAbout t config)

/-- The search of the first file settles, and the others are settled behind it. -/
theorem run_settleAll_cons {i : Nat} {path : String} (hpath : files[i]? = some path)
    (h : Settles t config path) (rest : List Nat) (log : List Message) :
    (settleAll t config files (i :: rest)).run.run log =
      match (settleAll t config files rest).run.run
          (log ++ (warningAt t config files i).toList) with
      | (.ok others, log') => (.ok ((entryAt t config files i).toList ++ others), log')
      | (.error e, log') => (.error e, log') := by
  have hentry : entryAt t config files i = (search t config path).toOption.map (i, ·) := by
    rw [entryAt, hpath, Option.bind_some]
  have hwarning : warningAt t config files i = warningAbout t config path := by
    rw [warningAt, hpath, Option.bind_some]
  rw [settleAll, hpath, hentry, hwarning]
  simp only [run_bind, run_settle h]
  cases (settleAll t config files rest).run.run (log ++ (warningAbout t config path).toList) with
  | mk result log' => cases result <;> rfl

/-- Files whose searches settle are settled one after the other. -/
theorem run_settleAll {order : List Nat}
    (h : ∀ i ∈ order, ∃ path, files[i]? = some path ∧ Settles t config path)
    (log : List Message) :
    (settleAll t config files order).run.run log =
      (.ok (order.filterMap (entryAt t config files)),
        log ++ order.filterMap (warningAt t config files)) := by
  induction order generalizing log with
  | nil =>
    rw [settleAll, List.filterMap_nil, List.filterMap_nil, List.append_nil]
    rfl
  | cons i rest ih =>
    rw [List.forall_mem_cons] at h
    obtain ⟨⟨path, hpath, hsettles⟩, hrest⟩ := h
    rw [run_settleAll_cons hpath hsettles, ih hrest, List.filterMap_cons, List.filterMap_cons]
    cases entryAt t config files i <;> cases warningAt t config files i <;> simp

/-- If the search of some file fails in another way, settling ends with the first such failure. -/
theorem run_settleAll_of_error {order : List Nat} (hfiles : ∀ i ∈ order, i < files.length)
    (h : ∃ i ∈ order, ∃ path, files[i]? = some path ∧ ¬ Settles t config path)
    (log : List Message) :
    ∃ path ∈ files, ∃ e log', search t config path = .error e ∧ ¬ e.IsFileError ∧
      (settleAll t config files order).run.run log = (.error e, log') := by
  induction order generalizing log with
  | nil =>
    obtain ⟨i, hi, -⟩ := h
    cases hi
  | cons i rest ih =>
    rw [List.forall_mem_cons] at hfiles
    obtain ⟨path, hpath⟩ : ∃ path, files[i]? = some path := ⟨_, List.getElem?_eq_getElem hfiles.1⟩
    by_cases hsettles : Settles t config path
    · have hrest : ∃ i ∈ rest, ∃ path, files[i]? = some path ∧ ¬ Settles t config path := by
        obtain ⟨j, hj, path', hpath', hfails⟩ := h
        rcases List.mem_cons.mp hj with rfl | hj
        · rw [hpath] at hpath'
          exact absurd (Option.some.inj hpath' ▸ hsettles) hfails
        · exact ⟨j, hj, path', hpath', hfails⟩
      obtain ⟨path', hmem, e, log', hsearch, he, hrun⟩ := ih hfiles.2 hrest
        (log ++ (warningAt t config files i).toList)
      refine ⟨path', hmem, e, log', hsearch, he, ?_⟩
      rw [run_settleAll_cons hpath hsettles, hrun]
    · rw [Settles, not_forall₂] at hsettles
      obtain ⟨e, hsearch, he⟩ := hsettles
      refine ⟨path, List.mem_of_getElem? hpath, e, log, hsearch, he, ?_⟩
      rw [settleAll, hpath]
      simp only [run_bind, run_settle_of_error hsearch he]

/-! ### The order of the files -/

/-- In the order of the indices, the entries of the files are sorted. -/
theorem pairwise_entries (t : FileTree) (config : Config) (files : List String) (n : Nat) :
    ((List.range n).filterMap (entryAt t config files)).Pairwise fun a b => a.1 ≤ b.1 := by
  rw [List.pairwise_filterMap]
  refine List.pairwise_lt_range.imp fun hlt a ha b hb => ?_
  obtain ⟨path, -, ha⟩ := Option.bind_eq_some_iff.mp ha
  obtain ⟨path', -, hb⟩ := Option.bind_eq_some_iff.mp hb
  obtain ⟨share, -, rfl⟩ := Option.map_eq_some_iff.mp ha
  obtain ⟨share', -, rfl⟩ := Option.map_eq_some_iff.mp hb
  exact Nat.le_of_lt hlt

/-- An entry is determined by its index. -/
theorem entry_eq_of_mem {order : List Nat} {a : Nat × Share}
    (h : a ∈ order.filterMap (entryAt t config files)) : entryAt t config files a.1 = some a := by
  obtain ⟨i, -, hentry⟩ := List.mem_filterMap.mp h
  obtain ⟨path, hpath, hshare⟩ := Option.bind_eq_some_iff.mp hentry
  obtain ⟨share, -, rfl⟩ := Option.map_eq_some_iff.mp hshare
  exact hentry

/-- Whatever the order in which the files have been settled, their shares are in the order of the
files afterwards. -/
theorem inFileOrder_eq {order : List Nat} (h : order.Perm (List.range files.length)) :
    inFileOrder (order.filterMap (entryAt t config files)) =
      files.filterMap fun path => (search t config path).toOption := by
  have hkeys : ∀ a ∈ order.filterMap (entryAt t config files),
      ∀ b ∈ order.filterMap (entryAt t config files), a.1 = b.1 → a = b := by
    intro a ha b hb heq
    have hentry := entry_eq_of_mem ha
    rw [heq, entry_eq_of_mem hb] at hentry
    exact (Option.some.inj hentry).symm
  rw [inFileOrder, mergeSort_keys_eq (h.filterMap _) (pairwise_entries t config files _) hkeys,
    List.map_filterMap, ← filterMap_range_eq files]
  refine List.filterMap_congr fun i _ => ?_
  rw [entryAt]
  cases files[i]? with
  | none => rfl
  | some path =>
    rw [Option.bind_some, Option.bind_some, Option.map_map]
    exact Option.map_id'

/-- Neither the number of workers nor the order in which the searches are completed has a bearing on
what is collected: it is what the searches that do not fail have found, in the order of the files.
Each file whose search fails gives one warning, and nothing else. A failure that does not isolate its
file ends the collecting. -/
theorem collect_eq {completion : List Nat} (h : completion.Perm (List.range files.length))
    (t : FileTree) (config : Config) (workers : Int) (log : List Message) :
    ((∀ path ∈ files, ∀ e, search t config path = .error e → e.IsFileError) →
      ∃ warnings, (collect t config workers completion files).run.run log =
          (.ok ⟨(files.filterMap fun path => (search t config path).toOption).flatMap (·.references),
              (files.filterMap fun path => (search t config path).toOption).flatMap (·.definitions)⟩,
            log ++ warnings) ∧
        warnings.Perm (files.filterMap (warningAbout t config))) ∧
    ((∃ path ∈ files, ∃ e, search t config path = .error e ∧ ¬ e.IsFileError) →
      ∃ path ∈ files, ∃ e log', search t config path = .error e ∧ ¬ e.IsFileError ∧
        (collect t config workers completion files).run.run log = (.error e, log')) := by
  have horder := settlingOrder_perm h workers
  have hindex : ∀ i ∈ settlingOrder workers completion files, i < files.length := fun i hi =>
    List.mem_range.mp (horder.mem_iff.mp hi)
  constructor
  · intro hfiles
    have hsettles : ∀ i ∈ settlingOrder workers completion files,
        ∃ path, files[i]? = some path ∧ Settles t config path := fun i hi =>
      ⟨files.get ⟨i, hindex i hi⟩, List.getElem?_eq_getElem _, hfiles _ (List.get_mem _ _)⟩
    refine ⟨(settlingOrder workers completion files).filterMap (warningAt t config files), ?_, ?_⟩
    · rw [collect, run_bind, run_settleAll hsettles]
      simp only [inFileOrder_eq horder]
      rfl
    · rw [← filterMap_range_eq files]
      exact horder.filterMap _
  · rintro ⟨path, hmem, e, hsearch, he⟩
    obtain ⟨i, hi, hpath⟩ := List.mem_iff_getElem.mp hmem
    have hfails : ∃ i ∈ settlingOrder workers completion files,
        ∃ path, files[i]? = some path ∧ ¬ Settles t config path :=
      ⟨i, horder.mem_iff.mpr (List.mem_range.mpr hi), path,
        List.getElem?_eq_some_iff.mpr ⟨hi, hpath⟩, fun hsettles => he (hsettles e hsearch)⟩
    obtain ⟨path', hmem', e', log', hsearch', he', hrun⟩ := run_settleAll_of_error hindex hfails log
    refine ⟨path', hmem', e', log', hsearch', he', ?_⟩
    rw [collect, run_bind, hrun]

end Searching

/-- A tree with two files that define a flag each and one that is not UTF-8. -/
def mixedTree : FileTree where
  root := .directory [("good", .file []), ("a.env", .file "FEATURE_A=1".toUTF8.toList),
    ("b.env", .file "FEATURE_B=1".toUTF8.toList), ("bad", .file [255])]
  cwd := "/"
  proper := rfl

/-- Two of four files cannot be searched, and the others are settled in the opposite order; what is found in
them comes in theirs. With a pattern that asks for too many repetitions nothing is collected. -/
theorem collect_out_of_order :
    (∃ warnings, (collect mixedTree { patterns := [] } 2 [3, 2, 1, 0]
        ["a.env", "bad", "b.env", "gone"]).run.run [] =
          (.ok ⟨[], [⟨"FEATURE_A", "a.env", 1, 1⟩, ⟨"FEATURE_B", "b.env", 1, 1⟩]⟩, warnings) ∧
        warnings.length = 2) ∧
      ∃ e log', (collect mixedTree { patterns := ["(a)\x7b4294967295\x7d"] } 2 [1, 0]
        ["good", "bad"]).run.run [] = (.error e, log') ∧ ¬ e.IsFileError := by
  constructor
  · have hfirst : search mixedTree { patterns := [] } "a.env" =
        .ok ⟨[], [⟨"FEATURE_A", "a.env", 1, 1⟩]⟩ := Detect.eq_ok_of_toOption (by decide +kernel)
    have hsecond : search mixedTree { patterns := [] } "b.env" =
        .ok ⟨[], [⟨"FEATURE_B", "b.env", 1, 1⟩]⟩ := Detect.eq_ok_of_toOption (by decide +kernel)
    have hbad : search mixedTree { patterns := [] } "bad" = .error (.bare .notUtf8) := rfl
    have hgone : search mixedTree { patterns := [] } "gone" = .error (.bare .missingFile) := rfl
    have hfiles : ∀ path ∈ ["a.env", "bad", "b.env", "gone"], ∀ e,
        search mixedTree { patterns := [] } path = .error e → e.IsFileError := by
      simp only [List.forall_mem_cons, hfirst, hsecond, hbad, hgone]
      simp [Failure.IsFileError, Cause.IsValueError, Cause.IsSystemError]
    obtain ⟨warnings, hrun, hwarnings⟩ := (@collect_eq ["a.env", "bad", "b.env", "gone"] _ [3, 2, 1, 0]
      (by decide) mixedTree { patterns := [] } 2 []).1 hfiles
    refine ⟨warnings, ?_, ?_⟩
    · simp only [List.filterMap_cons, List.filterMap_nil, hfirst, hsecond, hbad, hgone,
        Except.toOption] at hrun
      exact hrun
    · have hlength := hwarnings.length_eq
      simp only [List.filterMap_cons, List.filterMap_nil, warningAbout, hfirst, hsecond, hbad,
        hgone] at hlength
      exact hlength
  · obtain ⟨e, hsearch, he⟩ : ∃ e, search mixedTree { patterns := ["(a)\x7b4294967295\x7d"] }
        "good" = .error e ∧ ¬ e.IsFileError := by
      have hoverflow : (match search mixedTree { patterns := ["(a)\x7b4294967295\x7d"] } "good" with
          | .ok _ => none
          | .error e => some e) =
            some (.bare (.overflow "the repetition number is too large")) := by
        decide +kernel
      split at hoverflow
      · cases hoverflow
      · next e hsearch =>
        cases hoverflow
        exact ⟨_, hsearch, by simp [Failure.IsFileError, Cause.IsValueError, Cause.IsSystemError]⟩
    obtain ⟨path, -, e', log', -, he', hrun⟩ := (@collect_eq ["good", "bad"] _ [1, 0] (by decide)
      mixedTree { patterns := ["(a)\x7b4294967295\x7d"] } 2 []).2 ⟨"good", by decide, e, hsearch, he⟩
    exact ⟨e', log', hrun, he'⟩

end Run

end FlagAudit
