import FlagAudit.Proofs.Detect.EnvironmentReads
import FlagAudit.Proofs.Run.Stages

/-!
# Whether a flag that is read is the one that is defined

One file defines a flag, another one reads it from the environment, and nothing else is there. An audit
with the default patterns reads the name up to its first digit only, so the two meet exactly if the name
has no digit. Otherwise the definition counts as unused, and what is read of the name, if it has a
configured prefix, as missing.
-/

namespace FlagAudit.Run

open Detect (IsName beforeDigit definingText definingOf readingText readingOf startsWithAny)
open FileTree (Node Location)
open Scan (Sees inOrder sightsBelow Sight)

variable {t : FileTree} {config : Config} {files : List String} {name : List Char}

/-! ### Runs that do not fail -/

/-- A run whose files can be listed and searched reconciles what is found in them. -/
theorem run_of_files [Regex.CharNames] {completion : List String → List Nat} {root : String}
    {ms : List Message}
    (hscan : Yields (Scan.files t root config.includes config.excludes) (.ok files) ms)
    (hcompletion : (completion files).Perm (List.range files.length))
    {share : String → Share} (hshare : ∀ path ∈ files, search t config path = .ok (share path))
    (workers : Int) (log : List Message) :
    ∃ dead log', (run t config workers completion root).run.run log =
      (.ok (Analysis.reconcile (Share.join (files.map share)).references
        (Share.join (files.map share)).definitions dead), log') := by
  have hsettles : ∀ path ∈ files, Settles t config path := by
    intro path hpath e he
    rw [hshare path hpath] at he
    cases he
  have hfound : found t config files = .join (files.map share) := by
    rw [found, ← List.filterMap_eq_map]
    refine congrArg Share.join (List.filterMap_congr fun path hpath => ?_)
    rw [hshare path hpath]
    rfl
  have hcollect := yields_collect hcompletion hsettles workers
  rw [hfound] at hcollect
  exact ⟨_, _, yields_run hscan hcollect log⟩

/-! ### One file that defines a name and one that reads it -/

/-- A scan sees two files. One of them has a single line, which defines a name, and the other one reads
the name from the environment. -/
structure DefinesAndReads (t : FileTree) (config : Config) (root : String) (name : List Char)
    (source reader : Location) : Prop where
  /-- The files. -/
  sees : ∃ entries, t.find root = .ok (.directory entries) ∧
    ∀ names, Sees (.ofPatterns t.cwd root config.includes config.excludes) root (.directory entries)
      names ↔ names = source ∨ names = reader
  /-- The definition, and line feeds behind it, if any. -/
  defines : ∃ lineEnd, (∀ c ∈ lineEnd, c = '\n') ∧
    t.readText (Path.below root source) = .ok (definingText name lineEnd)
  /-- The place where the name is read. -/
  reads : t.readText (Path.below root reader) = .ok (readingText name)

variable {root : String} {source reader : Location}

/-- The references that come of the file that reads the name. -/
def readReferences (config : Config) (file : String) (name : List Char) : List Reference :=
  if startsWithAny config.prefixes (beforeDigit name) then [readingOf file name] else []

theorem search_of_text [Regex.CharNames] {path : String} {content : List Char} {references : List Reference}
    (htext : t.readText path = .ok content)
    (hreferences : Detect.references content config.patterns config.prefixes path = .ok references) :
    search t config path =
      .ok ⟨references, Detect.definitions content config.prefixes path⟩ := by
  rw [search_of_read htext, hreferences]
  rfl

theorem DefinesAndReads.search_reader [Regex.CharNames] (h : DefinesAndReads t config root name source reader)
    (hname : IsName name) (hpatterns : config.patterns = ({} : Config).patterns) :
    search t config (Path.below root reader) =
      .ok ⟨readReferences config (Path.below root reader) name, []⟩ := by
  have hequals : '=' ∉ readingText name :=
    Detect.not_mem_readingText hname (by decide) (by decide) (by decide)
  rw [search_of_text h.reads (hpatterns ▸ Detect.references_readingText hname _ _),
    Detect.definitions_eq_nil hequals]
  rfl

theorem DefinesAndReads.search_source [Regex.CharNames] (h : DefinesAndReads t config root name source reader)
    (hname : IsName name) (hpatterns : config.patterns = ({} : Config).patterns)
    (hadmitted : startsWithAny config.prefixes name = true) :
    search t config (Path.below root source) =
      .ok ⟨[], [definingOf (Path.below root source) name]⟩ := by
  obtain ⟨lineEnd, hend, htext⟩ := h.defines
  have hequals : '=' ∉ lineEnd := fun hmem => absurd (hend _ hmem) (by decide)
  rw [search_of_text htext (hpatterns ▸ Detect.references_definingText hname hend _ _),
    Detect.definitions_definingText hname hequals hadmitted]

/-- The two files are listed. -/
theorem DefinesAndReads.exists_files (h : DefinesAndReads t config root name source reader)
    (hname : IsName name) :
    ∃ files ms, Yields (Scan.files t root config.includes config.excludes) (.ok files) ms ∧
      files.Perm [Path.below root source, Path.below root reader] := by
  obtain ⟨entries, hroot, hsees⟩ := h.sees
  have hproper := FileTree.isProper_of_find hroot
  have hne : Path.below root source ≠ Path.below root reader := by
    intro heq
    obtain ⟨lineEnd, -, htext⟩ := h.defines
    have htexts := (congrArg t.readText heq).symm.trans htext
    rw [h.reads, Except.ok.injEq] at htexts
    have hequals : '=' ∉ readingText name :=
      Detect.not_mem_readingText hname (by decide) (by decide) (by decide)
    rw [htexts, definingText] at hequals
    simp at hequals
  obtain ⟨ms, hscan, -⟩ :=
    Scan.yields_files_of_directory hroot config.includes config.excludes
  refine ⟨_, ms, hscan, ?_⟩
  rw [List.perm_ext_iff_of_nodup]
  · intro path
    rw [Scan.mem_files_iff hproper]
    simp only [hsees, List.mem_cons, List.not_mem_nil, or_false]
    constructor
    · rintro ⟨names, rfl | rfl, rfl⟩
      · exact .inl rfl
      · exact .inr rfl
    · rintro (rfl | rfl)
      · exact ⟨source, .inl rfl, rfl⟩
      · exact ⟨reader, .inr rfl, rfl⟩
  · exact (Scan.pairwise_files hproper).imp ne_of_lt
  · simpa using hne

/-- What is found in the two files does not depend on their order. -/
theorem join_of_perm {files : List String} {a b : String} (h : files.Perm [a, b])
    (share : String → Share) :
    (Share.join (files.map share)).references.Perm ((share a).references ++ (share b).references) ∧
      (Share.join (files.map share)).definitions.Perm
        ((share a).definitions ++ (share b).definitions) := by
  have hshares := h.map share
  constructor
  · simpa [Share.join] using hshares.flatMap_right (·.references)
  · simpa [Share.join] using hshares.flatMap_right (·.definitions)

/-- There is at most one reference, so its order does not matter. -/
theorem eq_readReferences_of_perm {references : List Reference} {file : String}
    (h : references.Perm (readReferences config file name)) :
    references = readReferences config file name := by
  generalize heq : readReferences config file name = found at h ⊢
  rw [readReferences] at heq
  split at heq <;> subst heq
  · exact List.perm_singleton.mp h
  · exact h.eq_nil

/-- What is read of a name is unused and missing unless it is the whole name. -/
theorem reconcile_readReferences (hadmitted : startsWithAny config.prefixes name = true)
    (readFile definingFile : String) (dead : List DeadConditional) :
    let findings := Analysis.reconcile (readReferences config readFile name)
      [definingOf definingFile name] dead
    findings.references = readReferences config readFile name ∧
      findings.unused = (if beforeDigit name = name then [] else [definingOf definingFile name]) ∧
      findings.missing =
        (if beforeDigit name = name then [] else readReferences config readFile name) := by
  by_cases hwhole : beforeDigit name = name
  · have hread : readReferences config readFile name = [readingOf readFile name] := by
      rw [readReferences, hwhole, if_pos hadmitted]
    simp [hread, hwhole, Analysis.reconcile, Analysis.sortReferences, Analysis.sortDefinitions,
      Analysis.unused, Analysis.missing, readingOf, definingOf]
  · have hname : String.ofList (beforeDigit name) ≠ String.ofList name := fun heq =>
      hwhole (String.ofList_injective heq)
    rw [readReferences]
    split <;>
      simp [hname, hname.symm, Analysis.reconcile, Analysis.sortReferences,
        Analysis.sortDefinitions, Analysis.unused, Analysis.missing, readingOf, definingOf]

/-- The findings of an audit of the two files. -/
theorem run_of_definesAndReads [Regex.CharNames] (hpatterns : config.patterns = ({} : Config).patterns)
    {completion : List String → List Nat}
    (hcompletion : ∀ files, (completion files).Perm (List.range files.length))
    (hname : IsName name) (hadmitted : startsWithAny config.prefixes name = true)
    (h : DefinesAndReads t config root name source reader) (workers : Int) (log : List Message) :
    ∃ findings log', (run t config workers completion root).run.run log = (.ok findings, log') ∧
      findings.references = readReferences config (Path.below root reader) name ∧
      findings.unused =
        (if beforeDigit name = name then [] else [definingOf (Path.below root source) name]) ∧
      findings.missing =
        (if beforeDigit name = name then [] else
          readReferences config (Path.below root reader) name) := by
  have hreader := h.search_reader hname hpatterns
  have hsource := h.search_source hname hpatterns hadmitted
  obtain ⟨files, ms, hscan, hfiles⟩ := h.exists_files hname
  obtain ⟨share, hshare⟩ : ∃ share : String → Share, ∀ path found,
      search t config path = .ok found → share path = found :=
    ⟨fun path => (search t config path).toOption.getD {}, fun path found hfound => by
      simp only [hfound]
      rfl⟩
  have hsearch : ∀ path ∈ files, search t config path = .ok (share path) := by
    intro path hpath
    have hpath := hfiles.mem_iff.mp hpath
    simp only [List.mem_cons, List.not_mem_nil, or_false] at hpath
    rcases hpath with rfl | rfl
    · rw [hshare _ _ hsource, hsource]
    · rw [hshare _ _ hreader, hreader]
  obtain ⟨hreferences, hdefinitions⟩ := join_of_perm hfiles share
  rw [hshare _ _ hsource, hshare _ _ hreader] at hreferences hdefinitions
  obtain ⟨dead, log', hrun⟩ := run_of_files hscan (hcompletion files) hsearch workers log
  rw [eq_readReferences_of_perm hreferences, List.perm_singleton.mp hdefinitions] at hrun
  exact ⟨_, log', hrun, reconcile_readReferences hadmitted _ _ dead⟩

/-- With the default patterns, a flag that one file defines and another one reads from the environment
is found to be neither unused nor missing exactly if its name has no digit. If it has one, the definition
counts as unused, and the part of the name before its first digit, if it is read at all, as missing. -/
theorem agreement_iff_no_digit [Regex.CharNames] (hpatterns : config.patterns = ({} : Config).patterns)
    {completion : List String → List Nat}
    (hcompletion : ∀ files, (completion files).Perm (List.range files.length))
    (hname : IsName name) (hadmitted : startsWithAny config.prefixes name = true)
    (h : DefinesAndReads t config root name source reader) (workers : Int) (log : List Message) :
    ∃ findings log', (run t config workers completion root).run.run log = (.ok findings, log') ∧
      findings.references = readReferences config (Path.below root reader) name ∧
      ((∃ r ∈ findings.references, r.name = String.ofList name) ∧ findings.unused = [] ∧
        findings.missing = [] ↔ ∀ c ∈ name, c.isDigit = false) ∧
      ((∃ c ∈ name, c.isDigit = true) →
        findings.unused = [definingOf (Path.below root source) name] ∧
        findings.missing = findings.references) := by
  obtain ⟨findings, log', hrun, hreferences, hunused, hmissing⟩ :=
    run_of_definesAndReads hpatterns hcompletion hname hadmitted h workers log
  refine ⟨findings, log', hrun, hreferences, ?_, ?_⟩
  · rw [hunused, hmissing, ← Detect.beforeDigit_eq_self_iff]
    constructor
    · rintro ⟨-, hnone, -⟩
      by_contra hpart
      rw [if_neg hpart] at hnone
      cases hnone
    · intro hwhole
      refine ⟨⟨readingOf (Path.below root reader) name, ?_, ?_⟩, if_pos hwhole, if_pos hwhole⟩
      · rw [hreferences, readReferences, hwhole, if_pos hadmitted]
        exact List.mem_singleton_self _
      · rw [readingOf, hwhole]
  · rintro ⟨c, hc, hdigit⟩
    have hpart : beforeDigit name ≠ name := fun hwhole =>
      Bool.false_ne_true ((Detect.beforeDigit_eq_self_iff.mp hwhole c hc).symm.trans hdigit)
    rw [hunused, hmissing, hreferences, if_neg hpart, if_neg hpart]
    exact ⟨rfl, rfl⟩

/-! ### A tree for every name -/

/-- The bytes of an ASCII text. -/
def bytesOf (text : String) : List UInt8 := text.toList.map fun c => UInt8.ofNat c.toNat

/-- A tree with a file that defines a name and one that reads it. -/
def twoFiles (name : String) : FileTree where
  root := .directory [(".env", .file (bytesOf (name ++ "=1\n"))),
    ("app.ts", .file (bytesOf ("process.env." ++ name ++ "\n")))]
  cwd := "/"
  proper := by rfl

/-- ASCII characters, and no carriage return among them. -/
def isPlain (text : List Char) : Bool := text.all fun c => c.toNat < 128 && c != '\r'

theorem isPlain_append (s s' : List Char) : isPlain (s ++ s') = (isPlain s && isPlain s') :=
  List.all_append

/-- The bytes of a plain text are decoded to the text. -/
theorem decode_plain {text : List Char} (h : isPlain text = true) :
    Text.Utf8.decode (text.map fun c => UInt8.ofNat c.toNat) = some text := by
  induction text with
  | nil => rfl
  | cons c text ih =>
    simp only [isPlain, List.all_cons, Bool.and_eq_true, decide_eq_true_eq] at h
    have hbyte : (UInt8.ofNat c.toNat).toNat = c.toNat := by
      rw [UInt8.toNat_ofNat']
      exact Nat.mod_eq_of_lt (Nat.lt_trans h.1.1 (by decide))
    have hle : UInt8.ofNat c.toNat ≤ 0x7F := by
      rw [UInt8.le_iff_toNat_le, hbyte]
      exact Nat.le_of_lt_succ h.1.1
    rw [List.map_cons]
    unfold Text.Utf8.decode
    rw [if_pos hle, ih h.2, hbyte, Char.ofNat_toNat]
    rfl

/-- A file with a plain text is read as it is. -/
theorem readText_of_plain {path text : String} (h : t.find path = .ok (.file (bytesOf text)))
    (htext : isPlain text.toList = true) : t.readText path = .ok text.toList := by
  have hreturn : '\r' ∉ text.toList := fun hmem => by
    simpa using List.all_eq_true.mp htext _ hmem
  have hbytes : t.readBytes path = .ok (bytesOf text) := by
    rw [FileTree.readBytes, h]
    rfl
  have hdecode : Text.Utf8.decode (bytesOf text) = some text.toList := by
    rw [bytesOf, decode_plain htext]
  rw [FileTree.readText, hbytes]
  change Text.ofBytes (bytesOf text) = _
  simp only [Text.ofBytes, hdecode, Text.unifyNewlines_eq_self hreturn]

theorem isPlain_of_isName (h : IsName name) : isPlain name = true := by
  refine List.all_eq_true.mpr fun c hc => ?_
  rw [Bool.and_eq_true, decide_eq_true_eq, bne_iff_ne]
  have hreturn : c ≠ '\r' := fun heq => h.not_mem (by decide) (heq ▸ hc)
  have hletter : c.isAlpha = (c.isUpper || c.isLower) := rfl
  have hword : Text.isAsciiWord c = true := by
    rcases h.isMedial c hc with hupper | hdigit | rfl
    · simp [Text.isAsciiWord, Char.isAlphanum, hletter, hupper]
    · simp [Text.isAsciiWord, Char.isAlphanum, hdigit]
    · rfl
  exact ⟨Text.toNat_lt_of_isAsciiWord hword, hreturn⟩

theorem sees_twoFiles (name : String) (names : Location) :
    Sees (.ofPatterns "/" "." ({} : Config).includes ({} : Config).excludes) "." (twoFiles name).root
      names ↔ names = [".env"] ∨ names = ["app.ts"] := by
  have hchosen : ∀ file ∈ [".env", "app.ts"],
      (Scan.Policy.ofPatterns "/" "." ({} : Config).includes ({} : Config).excludes).chosen
        (Path.join "." file) = true := by decide +kernel
  generalize Scan.Policy.ofPatterns "/" "." ({} : Config).includes ({} : Config).excludes = policy
    at hchosen
  rw [twoFiles, Scan.sees_directory_iff (twoFiles name).proper]
  constructor
  · rintro ⟨file, child, rest, rfl, hchild, -, hsees⟩
    simp only [List.mem_cons, List.not_mem_nil, or_false, Prod.mk.injEq] at hchild
    rcases hchild with ⟨rfl, rfl⟩ | ⟨rfl, rfl⟩
    · exact .inl (by rw [(Scan.sees_file_iff.mp hsees).1])
    · exact .inr (by rw [(Scan.sees_file_iff.mp hsees).1])
  · rintro (rfl | rfl)
    · exact ⟨".env", _, [], rfl, List.mem_cons_self, nofun,
        Scan.sees_file_iff.mpr ⟨rfl, hchosen ".env" (by decide)⟩⟩
    · exact ⟨"app.ts", _, [], rfl, List.mem_cons_of_mem _ List.mem_cons_self, nofun,
        Scan.sees_file_iff.mpr ⟨rfl, hchosen "app.ts" (by decide)⟩⟩

/-- The root and the files are found at their locations. -/
theorem find_twoFiles (name : String) (names : Location)
    (h : names ∈ [[], [".env"], ["app.ts"]]) :
    (twoFiles name).find (Path.below "." names) =
      ((twoFiles name).root.at? names).elim (.error .missingFile) .ok := by
  have hpath : ∀ names ∈ [[], [".env"], ["app.ts"]],
      FileTree.partsOf (Path.join "/" (Path.below "." names)) = "" :: "." :: names ∧
        (Path.below "." names).isEmpty = false ∧
        (Path.below "." names).toList.contains '\x00' = false ∧
        (Path.below "." names).utf8ByteSize ≤ FileTree.pathLimit := by decide +kernel
  obtain ⟨hparts, hempty, hnull, hlimit⟩ := hpath names h
  have hlocate : (twoFiles name).locate true (Path.below "." names) = .ok names := by
    unfold FileTree.locate
    rw [hempty, hnull, if_neg Bool.false_ne_true, if_neg Bool.false_ne_true,
      if_neg (Nat.not_lt.mpr hlimit)]
    change FileTree.walk _ _ _ _ (FileTree.partsOf (Path.join "/" _)) = _
    rw [hparts]
    simp only [List.mem_cons, List.not_mem_nil, or_false] at h
    rcases h with rfl | rfl | rfl <;> rfl
  rw [FileTree.find_eq, hlocate]
  rfl

/-- In the tree of a name, one file defines the name and the other one reads it. -/
theorem definesAndReads_twoFiles {name : String} (h : IsName name.toList) :
    DefinesAndReads (twoFiles name) {} "." name.toList [".env"] ["app.ts"] where
  sees := ⟨_, find_twoFiles name [] (by decide), sees_twoFiles name⟩
  defines := by
    have htext : (name ++ "=1\n").toList = definingText name.toList ['\n'] := String.toList_append
    have hplain : isPlain (name ++ "=1\n").toList = true := by
      rw [String.toList_append, isPlain_append, isPlain_of_isName h]
      decide
    exact ⟨['\n'], fun c => List.mem_singleton.mp, htext ▸ readText_of_plain
      (find_twoFiles name [".env"] (by decide)) hplain⟩
  reads := by
    have htext : ("process.env." ++ name ++ "\n").toList = readingText name.toList := by
      rw [String.toList_append, String.toList_append, List.append_assoc]
      rfl
    have hplain : isPlain ("process.env." ++ name ++ "\n").toList = true := by
      rw [htext, readingText, isPlain_append, isPlain_append, isPlain_of_isName h]
      decide
    exact htext ▸ readText_of_plain (find_twoFiles name ["app.ts"] (by decide)) hplain

/-- A name of letters and one with a digit. -/
def sampleNames : List String := ["FEATURE_NEW", "FEATURE_V2"]

theorem isName_sample {name : String} (h : name ∈ sampleNames) : IsName name.toList := by
  have hmedial : ∀ name ∈ sampleNames,
      name.toList.tail.all (fun c => Detect.medial.accepts c) = true := by decide +kernel
  have hhead : ∀ name ∈ sampleNames, name.toList = 'F' :: name.toList.tail := by decide +kernel
  exact ⟨'F', _, hhead name h, .inl rfl, fun c hc =>
    Detect.accepts_medial.mp (List.all_eq_true.mp (hmedial name h) c hc)⟩

/-- A name of letters is read as it is defined. -/
theorem agreement_of_letters :
    ∃ findings log', (run (twoFiles "FEATURE_NEW") {} 2 lastFirst ".").run.run [] =
        (.ok findings, log') ∧
      (∃ r ∈ findings.references, r.name = "FEATURE_NEW") ∧ findings.unused = [] ∧
      findings.missing = [] := by
  have hsample : "FEATURE_NEW" ∈ sampleNames := by decide
  have hletters : ("FEATURE_NEW".toList.all fun c => !c.isDigit) = true := by decide
  obtain ⟨findings, log', hrun, -, hiff, -⟩ := agreement_iff_no_digit rfl lastFirst_perm
    (isName_sample hsample) (by decide) (definesAndReads_twoFiles (isName_sample hsample)) 2 []
  obtain ⟨⟨r, hr, hname⟩, hunused, hmissing⟩ := hiff.mpr fun c hc =>
    (Bool.not_eq_true' _).mp (List.all_eq_true.mp hletters c hc)
  exact ⟨findings, log', hrun, ⟨r, hr, hname.trans String.ofList_toList⟩, hunused, hmissing⟩

/-- What is read is not always what is defined. -/
theorem not_always_agreement :
    ¬ ∀ (t : FileTree) (config : Config) (workers : Int) (completion : List String → List Nat)
      (root : String) (name : List Char) (source reader : Location) (log : List Message),
      config.patterns = ({} : Config).patterns →
      (∀ files, (completion files).Perm (List.range files.length)) → IsName name →
      startsWithAny config.prefixes name = true →
      DefinesAndReads t config root name source reader →
      ∃ findings log', (run t config workers completion root).run.run log = (.ok findings, log') ∧
        (∃ r ∈ findings.references, r.name = String.ofList name) ∧ findings.unused = [] ∧
        findings.missing = [] := by
  intro h
  have hsample : "FEATURE_V2" ∈ sampleNames := by decide
  obtain ⟨findings, log', hrun, -, hunused, -⟩ := h _ {} 1 lastFirst _ _ _ _ [] rfl lastFirst_perm
    (isName_sample hsample) (by decide) (definesAndReads_twoFiles (isName_sample hsample))
  obtain ⟨findings', log'', hrun', -, hunused', -⟩ := run_of_definesAndReads rfl lastFirst_perm
    (isName_sample hsample) (by decide) (definesAndReads_twoFiles (isName_sample hsample)) 1 []
  rw [hrun, Prod.mk.injEq, Except.ok.injEq] at hrun'
  rw [← hrun'.1, hunused, if_neg (by decide)] at hunused'
  cases hunused'

end FlagAudit.Run
