import FlagAudit.Proofs.Detect.LineEndings
import FlagAudit.Proofs.Report.Summary
import FlagAudit.Proofs.Run.Errors

/-!
# When each finding has a line of its own

The details of a report list each finding in a line of its own exactly if there is no line feed in what is
shown of it (`listsEach_iff`). The names of unused flags and the constants that are tested never have one. The
names that patterns find, the literals that are tested as they are written, and the paths of files can have
one, and then a finding takes several lines, and what it says in them may look like another finding
(`details_of_run`).
-/

namespace FlagAudit.Report

open FlagAudit.Text

variable {f : Findings}

/-! ### Entries -/

/-- What the lines of the details that are no entries say. -/
def headings : List String := ["", "Details:", "Unused flags:", "Missing flags:", "Dead conditionals:"]

/-- A line of the details that says something about a finding. -/
def isEntry (line : String) : Bool := "  - ".toList.isPrefixOf line.toList

/-- The findings as they are shown, under their headings. -/
def sections (f : Findings) : List (String × List String) :=
  [("Unused flags:", f.unused.map fun d => flagLine d.name d.file d.line),
    ("Missing flags:", f.missing.map fun r => flagLine r.name r.file r.line),
    ("Dead conditionals:", f.dead.map deadLine)]

/-- All findings as they are shown, in the order of their lists. -/
def entries (f : Findings) : List String := (sections f).flatMap (·.2)

/-- The entries among some lines are the findings, one by one, and the other lines are headings or empty. -/
def ListsEach (ls : List String) (f : Findings) : Prop :=
  ls.filter isEntry = entries f ∧ ∀ l ∈ ls, isEntry l = false → l ∈ headings

theorem details_eq (f : Findings) :
    details f = ["", "Details:", ""] ++ (sections f).flatMap fun s => listing s.1 s.2 := by
  simp [details, sections]

theorem isEntry_append (s : String) : isEntry ("  - " ++ s) = true := by
  rw [isEntry, String.toList_append, List.isPrefixOf_iff_prefix]
  exact List.prefix_append _ _

theorem isEntry_flagLine (name file : String) (line : Int) : isEntry (flagLine name file line) = true := by
  simp only [flagLine, String.append_assoc, isEntry_append]

theorem isEntry_deadLine (d : DeadConditional) : isEntry (deadLine d) = true := by
  simp only [deadLine, String.append_assoc, isEntry_append]

/-- Every section has a heading and entries. -/
theorem section_spec : ∀ s ∈ sections f, s.1 ∈ headings ∧ ∀ l ∈ s.2, isEntry l = true := by
  simp only [sections, List.forall_mem_cons, List.forall_mem_map]
  exact ⟨⟨by decide, fun d _ => isEntry_flagLine d.name d.file d.line⟩,
    ⟨by decide, fun r _ => isEntry_flagLine r.name r.file r.line⟩,
    ⟨by decide, fun d _ => isEntry_deadLine d⟩, List.forall_mem_nil _⟩

theorem isEntry_of_mem_headings : ∀ l ∈ headings, isEntry l = false := by decide

theorem filter_listing {heading : String} {ls : List String} (hheading : heading ∈ headings)
    (hls : ∀ l ∈ ls, isEntry l = true) : (listing heading ls).filter isEntry = ls := by
  have hnot := isEntry_of_mem_headings heading hheading
  have hempty := isEntry_of_mem_headings "" (by decide)
  rw [listing]
  split
  · next h => rw [List.isEmpty_iff.mp h, List.filter_nil]
  · simp [hnot, hempty, List.filter_eq_self.mpr hls]

theorem mem_listing {heading l : String} {ls : List String} (h : l ∈ listing heading ls) :
    l = heading ∨ l ∈ ls ∨ l = "" := by
  rw [listing] at h
  split at h
  · cases h
  · simpa using h

/-- The details are made of headings and entries. -/
theorem mem_details {l : String} (h : l ∈ details f) : l ∈ headings ∨ l ∈ entries f := by
  rw [details_eq, List.mem_append, List.mem_flatMap] at h
  rcases h with h | ⟨s, hs, h⟩
  · have hopening : ∀ l ∈ ["", "Details:", ""], l ∈ headings := by decide
    exact .inl (hopening l h)
  · rcases mem_listing h with rfl | h | rfl
    · exact .inl (section_spec s hs).1
    · exact .inr (List.mem_flatMap.mpr ⟨s, hs, h⟩)
    · exact .inl (by decide)

/-- Each finding has an entry of its own. -/
theorem listsEach_details (f : Findings) : ListsEach (details f) f := by
  refine ⟨?_, fun l hl hnot => ?_⟩
  · have hopening : ["", "Details:", ""].filter isEntry = [] := by decide
    rw [details_eq, List.filter_append, hopening, List.nil_append, List.filter_flatMap, entries]
    exact List.flatMap_congr fun s hs => filter_listing (section_spec s hs).1 (section_spec s hs).2
  · rcases mem_details hl with h | h
    · exact h
    · obtain ⟨s, hs, h⟩ := List.mem_flatMap.mp h
      rw [(section_spec s hs).2 l h] at hnot
      cases hnot

/-- The lines of the details list each finding exactly if no entry has a line feed. -/
theorem listsEach_iff : ListsEach ((details f).flatMap lines) f ↔ ∀ l ∈ entries f, '\n' ∉ l.toList := by
  constructor
  · intro h l hl
    obtain ⟨s, -, hline⟩ := List.mem_flatMap.mp (List.mem_filter.mp (h.1 ▸ hl)).1
    exact lineFeed_notMem_of_mem_lines hline
  · intro h
    have hheadings : ∀ l ∈ headings, '\n' ∉ l.toList := by decide
    have hlines : (details f).flatMap lines = details f := flatMap_lines_eq_iff.mpr fun l hl =>
      (mem_details hl).elim (hheadings l) (h l)
    rw [hlines]
    exact listsEach_details f

/-! ### What an entry says -/

theorem lineFeed_mem_flagLine {name file : String} {line : Int} :
    '\n' ∈ (flagLine name file line).toList ↔ '\n' ∈ name.toList ∨ '\n' ∈ file.toList := by
  have hline : '\n' ∉ (toString line).toList := Json.notMem_toString_int (by decide) (by decide) line
  simp only [flagLine, String.toList_append, List.mem_append, hline, or_false]
  simp

theorem lineFeed_mem_deadLine {d : DeadConditional} :
    '\n' ∈ (deadLine d).toList ↔ '\n' ∈ d.file.toList ∨ '\n' ∈ d.condition.toList := by
  have hline : '\n' ∉ (toString d.line).toList := Json.notMem_toString_int (by decide) (by decide) d.line
  simp only [deadLine, String.toList_append, List.mem_append, hline, or_false]
  cases d.outcome <;> simp

theorem forall_mem_entries_iff :
    (∀ l ∈ entries f, '\n' ∉ l.toList) ↔
      (∀ d ∈ f.unused, '\n' ∉ d.name.toList ∧ '\n' ∉ d.file.toList) ∧
      (∀ r ∈ f.missing, '\n' ∉ r.name.toList ∧ '\n' ∉ r.file.toList) ∧
      ∀ d ∈ f.dead, '\n' ∉ d.file.toList ∧ '\n' ∉ d.condition.toList := by
  rw [entries, List.forall_mem_flatMap]
  simp only [sections, List.forall_mem_cons, List.forall_mem_map, lineFeed_mem_flagLine, lineFeed_mem_deadLine,
    not_or, List.not_mem_nil, IsEmpty.forall_iff, implies_true, and_true]

end FlagAudit.Report

namespace FlagAudit

variable {content : List Char} {file : String}

/-! ### What is found in a text -/

namespace Detect

/-- A flag that is defined has its name in one line. -/
theorem lineFeed_notMem_name {prefixes : List String} {d : Definition}
    (h : d ∈ definitions content prefixes file) : '\n' ∉ d.name.toList := by
  rw [definitions_eq_map] at h
  obtain ⟨start, hstart, rfl⟩ := List.mem_map.mp h
  obtain ⟨blanks, rest, hassigns⟩ := (mem_starts_iff.mp (List.mem_filter.mp hstart).1).assigns
  rw [definitionOf, String.toList_ofList]
  exact hassigns.isName.not_mem (by decide)

/-- A dead conditional is shown in one line, or it is a test of a literal, as it is written. -/
theorem inLine_or_isLiteralTest {d : DeadConditional} (h : d ∈ deadConditionals content file) :
    '\n' ∉ d.condition.toList ∨ IsLiteralTest d.outcome d.condition.toList := by
  obtain ⟨rule, -, h⟩ := List.mem_flatMap.mp h
  obtain ⟨hit, hhit, rfl⟩ := List.mem_map.mp h
  obtain ⟨nonempty, c, -, -, hread⟩ :=
    Text.exists_read_of_mem_hitsFrom (Text.Cursor.within_start content) hhit
  obtain ⟨rest, hread, -⟩ := Rule.reader_eq_some_iff.mp hread
  rw [String.toList_ofList]
  cases rule with
  | literal outcome => exact .inr (read?_literal_iff.mp hread).1
  | constant outcome =>
    obtain ⟨d, ⟨behind, n, hdeclares, -⟩, hshown⟩ := read?_constant_iff.mp hread
    rw [hshown]
    exact .inl hdeclares.inLine_shown.2

end Detect

namespace Run

variable {t : FileTree} {config : Config} {workers : Int} {completion : List String → List Nat}
  {root : String} {f : Findings} {log log' : List Message}

/-! ### What a run shows -/

/-- The findings of a run are what is found in some files. -/
theorem exists_files_of_run [Regex.CharNames]
    (hcompletion : ∀ files, (completion files).Perm (List.range files.length))
    (h : (run t config workers completion root).run.run log = (.ok f, log')) :
    ∃ files, f = Analysis.reconcile (found t config files).references (found t config files).definitions
      (files.flatMap (deadOf t)) := by
  rcases Scan.files_cases t root config.includes config.excludes with
    ⟨-, files, ms, hscan, hdebug, hnodup⟩ | ⟨-, message, path, cause, hscan⟩
  · by_cases hoverflows : Overflows t config files
    · obtain ⟨message, cause, hinternal⟩ := exists_internal hoverflows.1
      obtain ⟨ms', hrun⟩ := hinternal t workers completion root files ms hscan (hcompletion files) hoverflows
      cases (Prod.mk.inj ((hrun log).symm.trans h)).1
    · obtain ⟨findings, ms', hrun, haccounts⟩ := yields_run_of_not_overflows workers hscan hdebug hnodup
        (hcompletion files) hoverflows
      obtain rfl := Except.ok.inj (Prod.mk.inj ((hrun log).symm.trans h)).1
      exact ⟨files, haccounts.findings_eq⟩
  · cases (Prod.mk.inj ((yields_run_of_scan hscan log).symm.trans h)).1

/-- What is defined is found in one of the files. -/
theorem exists_definitions_of_mem_found [Regex.CharNames] {files : List String} {d : Definition}
    (h : d ∈ (found t config files).definitions) :
    ∃ content path, d ∈ Detect.definitions content config.prefixes path := by
  obtain ⟨share, hshare, hd⟩ := List.mem_flatMap.mp h
  obtain ⟨path, -, hsearch⟩ := List.mem_filterMap.mp hshare
  rcases search_cases t config path with ⟨content, references, -, -, hfound⟩ | ⟨e, he⟩
  · rw [hfound] at hsearch
    rw [← Option.some.inj hsearch] at hd
    dsimp only at hd
    exact ⟨content, path, hd⟩
  · rw [he] at hsearch
    cases hsearch

theorem exists_content_of_mem_deadOf {path : String} {d : DeadConditional} (h : d ∈ deadOf t path) :
    ∃ content, d ∈ Detect.deadConditionals content path := by
  rw [deadOf] at h
  split at h
  · next content _ => exact ⟨content, h⟩
  · cases h

end Run

/-! ### The details of a run -/

namespace Report

open Text (lines)
open Run (run found deadOf)

variable {t : FileTree} {config : Config} {workers : Int} {completion : List String → List Nat}
  {root : String} {f : Findings} {log log' : List Message}

/-- The details of a run list each finding in a line of its own exactly if there is no line feed in the path
of a file that is shown, in the name of a missing flag and in the condition of a dead conditional. Otherwise
each entry is cut at its line feeds. Names of unused flags have no line feed, and a condition that has one is
a test of a literal as it is written. -/
theorem details_of_run [Regex.CharNames]
    (hcompletion : ∀ files, (completion files).Perm (List.range files.length))
    (h : (run t config workers completion root).run.run log = (.ok f, log')) (ci : Bool) :
    (ListsEach (detailsIn (render ⟨false, ci, true⟩ f)) f ↔
      (∀ d ∈ f.unused, '\n' ∉ d.file.toList) ∧
      (∀ r ∈ f.missing, '\n' ∉ r.name.toList ∧ '\n' ∉ r.file.toList) ∧
      ∀ d ∈ f.dead, '\n' ∉ d.file.toList ∧ '\n' ∉ d.condition.toList) ∧
    detailsIn (render ⟨false, ci, true⟩ f) = (details f).flatMap lines ∧
    (∀ d ∈ f.unused, '\n' ∉ d.name.toList) ∧
    ∀ d ∈ f.dead, '\n' ∈ d.condition.toList → Detect.IsLiteralTest d.outcome d.condition.toList := by
  have hsummary : render ⟨false, ci, true⟩ f = summary ci true f := rfl
  obtain ⟨files, hf⟩ := Run.exists_files_of_run hcompletion h
  have hnames : ∀ d ∈ f.unused, '\n' ∉ d.name.toList := by
    intro d hd
    rw [hf] at hd
    have hdefined := List.mem_mergeSort.mp (List.mem_filter.mp hd).1
    obtain ⟨content, path, hd⟩ := Run.exists_definitions_of_mem_found hdefined
    exact Detect.lineFeed_notMem_name hd
  have hconditions : ∀ d ∈ f.dead, '\n' ∈ d.condition.toList →
      Detect.IsLiteralTest d.outcome d.condition.toList := by
    intro d hd hfeed
    rw [hf] at hd
    obtain ⟨path, -, hd⟩ := List.mem_flatMap.mp hd
    obtain ⟨content, hd⟩ := Run.exists_content_of_mem_deadOf hd
    exact (Detect.inLine_or_isLiteralTest hd).resolve_left (not_not_intro hfeed)
  rw [hsummary, detailsIn_summary, listsEach_iff, forall_mem_entries_iff]
  refine ⟨and_congr_left' ?_, rfl, hnames, hconditions⟩
  exact forall₂_congr fun d hd => and_iff_right (hnames d hd)

/-- A tree with a test of a literal that goes over two lines. -/
def brokenTest : FileTree where
  root := .directory [("a.ts", .file ("if (\n1)".toList.map fun c => UInt8.ofNat c.toNat))]
  cwd := "/"
  proper := by decide

/-- A configuration that chooses all files and looks for no references. -/
def onlyDead : Config := { includes := [], excludes := [], patterns := [] }

/-- The test is found as it is written. -/
theorem exists_run_brokenTest :
    ∃ f log', (run brokenTest onlyDead 1 Run.lastFirst "a.ts").run.run [] = (.ok f, log') ∧
      f.dead = [⟨"a.ts", 1, 1, "if (\n1)", true⟩] := by
  have hscan : Yields (Scan.files brokenTest "a.ts" onlyDead.includes onlyDead.excludes) (.ok ["a.ts"]) [] := by
    intro log
    rw [List.append_nil]
    rfl
  have hread : brokenTest.readText "a.ts" = .ok "if (\n1)".toList := by decide +kernel
  have hdead : deadOf brokenTest "a.ts" = [⟨"a.ts", 1, 1, "if (\n1)", true⟩] := by
    rw [deadOf, hread]
    decide +kernel
  obtain ⟨f, ms, hrun, haccounts⟩ := Run.yields_run_of_not_overflows 1 hscan (List.forall_mem_nil _)
    (List.nodup_singleton _) (Run.lastFirst_perm _) fun h => absurd h.1 (by decide)
  refine ⟨f, _, hrun [], ?_⟩
  rw [haccounts.findings_eq, Analysis.reconcile, List.flatMap_singleton, hdead]

/-- Its details have an entry of two lines. -/
theorem details_of_brokenTest :
    ∃ f log', (run brokenTest onlyDead 1 Run.lastFirst "a.ts").run.run [] = (.ok f, log') ∧
      ¬ ListsEach (detailsIn (render ⟨false, true, true⟩ f)) f ∧
      Detect.IsLiteralTest true "if (\n1)".toList := by
  obtain ⟨f, log', hrun, hdead⟩ := exists_run_brokenTest
  have hmem : (⟨"a.ts", 1, 1, "if (\n1)", true⟩ : DeadConditional) ∈ f.dead := by
    rw [hdead]
    exact List.mem_singleton_self _
  obtain ⟨hiff, -, -, htests⟩ := details_of_run Run.lastFirst_perm hrun true
  refine ⟨f, log', hrun, fun hlists => ?_, htests _ hmem (by decide)⟩
  exact ((hiff.mp hlists).2.2 _ hmem).2 (by decide)

/-- A finding does not always have a line of its own. -/
theorem not_always_listsEach :
    ¬ ∀ (t : FileTree) (config : Config) (workers : Int) (completion : List String → List Nat) (root : String)
      (log log' : List Message) (f : Findings) (ci : Bool),
      (∀ files, (completion files).Perm (List.range files.length)) →
      (run t config workers completion root).run.run log = (.ok f, log') →
      ListsEach (detailsIn (render ⟨false, ci, true⟩ f)) f := by
  intro h
  obtain ⟨f, log', hrun, hdead⟩ := exists_run_brokenTest
  have hlists := h _ _ _ _ _ _ _ f true Run.lastFirst_perm hrun
  have hsummary : render ⟨false, true, true⟩ f = summary true true f := rfl
  rw [hsummary, detailsIn_summary, listsEach_iff, forall_mem_entries_iff, hdead] at hlists
  exact (hlists.2.2 _ (List.mem_singleton_self _)).2 (by decide)

end Report

end FlagAudit
