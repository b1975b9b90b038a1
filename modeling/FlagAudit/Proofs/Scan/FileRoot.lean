import FlagAudit.Proofs.FileTree.Below
import FlagAudit.Proofs.Path.Parent
import FlagAudit.Proofs.Scan.Relocation
import FlagAudit.Proofs.Selection.Depth

/-!
# Scans of a single file

A file that is the root of a scan is seen from the directory that holds it, so patterns see its name alone,
and not the names of the directories on the way that they see in a scan of one of these. Patterns for names
at every depth look at the last name in any case. With such patterns a scan of a file lists it exactly if a
scan of a directory above it does that enters the directories on the way (`files_of_file_root`).
-/

namespace FlagAudit

namespace Selection

open FileTree (Location isEntryName)

variable {includes excludes : List String} {pattern spelling spelling' : String}

/-! ### Patterns for names -/

/-- A pattern for names at every depth: two stars, a slash, and a part without a pair of stars. -/
def IsNamePattern (pattern : String) : Prop :=
  ∃ part, pattern = atEveryDepth part ∧ Glob.Shallow part.toList

/-- A pattern for names does not see the directories on the way. -/
theorem IsNamePattern.matchesForm_iff (h : IsNamePattern pattern) {dirs : Location} {name : String}
    (hnames : ∀ n ∈ dirs ++ [name], isEntryName n = true)
    (hplain : ∀ n ∈ dirs ++ [name], IsPlainName n) :
    MatchesForm pattern (Path.below "" (dirs ++ [name])) ↔ MatchesForm pattern (Path.below "" [name]) := by
  obtain ⟨part, rfl, hpart⟩ := h
  obtain ⟨ts, hts⟩ := Glob.exists_partTokens part.toList
  have hname : name ∈ dirs ++ [name] := List.mem_append_right _ List.mem_cons_self
  have hdeep := hasParts_below (List.append_ne_nil_of_right_ne_nil _ (List.cons_ne_nil _ _)) hnames hplain
  rw [List.map_append] at hdeep
  have hbare : HasParts (Path.below "" [name]) ([] ++ [name.toList]) :=
    hasParts_below (List.cons_ne_nil _ _) (by simpa using hnames name hname)
      (by simpa using hplain name hname)
  rw [matchesForm_within_iff hpart hts hdeep, matchesForm_within_iff hpart hts hbare]

/-- A file is chosen by what the patterns match. -/
theorem choosesSpelling_congr
    (hincludes : ∀ pattern ∈ includes, MatchesForm pattern spelling ↔ MatchesForm pattern spelling')
    (hexcludes : ∀ pattern ∈ excludes, MatchesForm pattern spelling ↔ MatchesForm pattern spelling') :
    choosesSpelling includes excludes spelling = choosesSpelling includes excludes spelling' := by
  have hexcluded : excludesSpelling excludes false spelling = excludesSpelling excludes false spelling' := by
    rw [Bool.eq_iff_iff, excludesSpelling_iff_matchesForm, excludesSpelling_iff_matchesForm]
    simp only [Bool.false_eq_true, false_and, or_false]
    exact exists_congr fun pattern => and_congr_right (hexcludes pattern)
  by_cases hnone : includes = []
  · subst hnone
    rw [choosesSpelling, choosesSpelling, hexcluded]
    rfl
  · rw [Bool.eq_iff_iff, choosesSpelling_iff hnone, choosesSpelling_iff hnone, hexcluded]
    exact and_congr_right fun _ => exists_congr fun pattern => and_congr_right (hincludes pattern)

/-- If all patterns are patterns for names, a file is chosen by its name. -/
theorem choosesSpelling_name (hpatterns : ∀ pattern ∈ includes ++ excludes, IsNamePattern pattern)
    {dirs : Location} {name : String} (hnames : ∀ n ∈ dirs ++ [name], isEntryName n = true)
    (hplain : ∀ n ∈ dirs ++ [name], IsPlainName n) :
    choosesSpelling includes excludes (Path.below "" (dirs ++ [name])) =
      choosesSpelling includes excludes (Path.below "" [name]) := by
  refine choosesSpelling_congr (fun pattern hpattern => ?_) fun pattern hpattern => ?_
  · have h := hpatterns pattern (List.mem_append_left _ hpattern)
    exact h.matchesForm_iff hnames hplain
  · have h := hpatterns pattern (List.mem_append_right _ hpattern)
    exact h.matchesForm_iff hnames hplain

end Selection

namespace Scan

open FileTree (Node Location isEntryName)
open Selection (IsPlainName IsNamePattern)

variable {t : FileTree} {root : String} {entries : List (String × Node)} {names : Location}
  {content : List UInt8} {includes excludes : List String}

/-! ### The file of a path -/

/-- A path by real entries leads to the file that is there, if it leads to a file at all. -/
theorem find_of_isFile (hroot : t.find root = .ok (.directory entries))
    (hfile : (Node.directory entries).at? names = some (.file content))
    (hfound : t.isFile (Path.below root names) = true) :
    t.find (Path.below root names) = .ok (.file content) := by
  have hne := (names_of_file (FileTree.isProper_of_find hroot) rfl ⟨content, hfile⟩).1
  have hfind := FileTree.find_below hroot hne hfile
  rw [hfind]
  rw [FileTree.isFile, hfind] at hfound
  split at hfound
  · cases hfound
  · next hshort => rw [if_neg hshort]

/-- A scan of a file lists it if its name is chosen. -/
theorem run_files_of_file (hcwd : Path.isAbsolute t.cwd = true) {dir name : String}
    (hname : isEntryName name = true) (hdir : dir ≠ "")
    (hfile : t.find (Path.join dir name) = .ok (.file content)) (includes excludes : List String)
    (log : List Message) :
    (files t (Path.join dir name) includes excludes).run.run log =
      (.ok (if Selection.choosesSpelling includes excludes (Path.below "" [name]) then
        [Path.join dir name] else []), log) := by
  have hparent : (Path.parent (Path.join dir name)).isEmpty = false := by
    rw [← Bool.not_eq_true, String.isEmpty_iff]
    exact (Path.parent_join hname hdir).1
  rw [files, hfile]
  simp only [hparent, Bool.false_eq_true, if_false, Selection.isChosen_eq,
    Path.relative_parent hcwd hname hdir]
  rfl

/-! ### A file and a directory above it -/

/-- If all patterns are patterns for names, a scan of a file lists it exactly if it is listed by the scan
of a directory from which the file is reached through directories that are not left out. -/
theorem files_of_file_root (hcwd : Path.isAbsolute t.cwd = true)
    (hroot : t.find root = .ok (.directory entries))
    (hplain : (Node.directory entries).AllNames IsPlainName)
    (hpatterns : ∀ pattern ∈ includes ++ excludes, IsNamePattern pattern)
    (hfile : (Node.directory entries).at? names = some (.file content))
    (hfound : t.isFile (Path.below root names) = true)
    (hentered : ∀ k, 0 < k → k < names.length →
      Selection.isExcluded t.cwd root excludes true (Path.below root (names.take k)) = false)
    (log log' : List Message) :
    ∃ paths log'', (files t root includes excludes).run.run log = (.ok paths, log'') ∧
      (files t (Path.below root names) includes excludes).run.run log' =
        (.ok (if Path.below root names ∈ paths then [Path.below root names] else []), log') := by
  have hproper := FileTree.isProper_of_find hroot
  have hfind := find_of_isFile hroot hfile hfound
  obtain ⟨hne, hnames⟩ := names_of_file hproper rfl ⟨content, hfile⟩
  -- The directory lists the file if it is chosen there.
  have hlisted : Path.below root names ∈ ((inOrder (sightsBelow (.ofPatterns t.cwd root includes
      excludes) root entries)).filterMap Sight.file?).mergeSort ↔
      Selection.choosesSpelling includes excludes (Path.below "" names) = true := by
    rw [mem_files_iff hproper, ← Selection.isChosen_below hcwd hne hnames]
    constructor
    · rintro ⟨names', hsees, heq⟩
      rw [heq]
      exact hsees.chosen
    · intro hchosen
      exact ⟨names, ⟨⟨content, hfile⟩, hentered, hchosen⟩, rfl⟩
  obtain ⟨log'', hrun⟩ := run_files hroot includes excludes log
  refine ⟨_, log'', hrun, ?_⟩
  obtain ⟨dirs, name, rfl⟩ := (List.eq_nil_or_concat names).resolve_left hne
  rw [List.concat_eq_append] at *
  have hsame := Selection.choosesSpelling_name hpatterns hnames (hplain _ _ hfile)
  have hpath : Path.below root (dirs ++ [name]) = Path.join (Path.below root dirs) name := by
    rw [Path.below, List.foldl_append]
    rfl
  have hdir : Path.below root dirs ≠ "" :=
    FileTree.below_ne_empty (FileTree.locate_of_find hroot).1 fun n hn =>
      hnames n (List.mem_append_left _ hn)
  have hname : isEntryName name = true := hnames name (List.mem_append_right _ List.mem_cons_self)
  simp only [hlisted, hsame]
  rw [hpath] at hfind ⊢
  exact run_files_of_file hcwd hname hdir hfind includes excludes log'

/-- A source and its test, below the working directory. -/
def testedSources : FileTree where
  root := .directory [("home", .directory [("src", .directory [("lib", .directory
    [("b.test.ts", .file []), ("b.ts", .file [])])])])]
  cwd := "/home"
  proper := by decide

/-- The theorem holds of a source that is listed and of a test that is not, from a directory that is spelled
with slashes at its end. -/
theorem files_of_source_and_test :
    ∃ paths log, (files testedSources "src//" ["**/*.\x7bts,js\x7d"] ["**/*.test.*"]).run.run [] =
        (.ok paths, log) ∧
      "src//lib/b.ts" ∈ paths ∧
      (files testedSources "src//lib/b.ts" ["**/*.\x7bts,js\x7d"] ["**/*.test.*"]).run.run [] =
        (.ok ["src//lib/b.ts"], []) ∧
      "src//lib/b.test.ts" ∉ paths ∧
      (files testedSources "src//lib/b.test.ts" ["**/*.\x7bts,js\x7d"] ["**/*.test.*"]).run.run [] =
        (.ok [], []) := by
  have hroot : testedSources.find "src//" = .ok (.directory [("lib", .directory
      [("b.test.ts", .file []), ("b.ts", .file [])])]) := rfl
  have hplain : (Node.directory [("lib", .directory
      [("b.test.ts", .file []), ("b.ts", .file [])])]).AllNames IsPlainName := by
    have hfile : (Node.file []).AllNames IsPlainName := Node.allNames_of_entries (List.forall_mem_nil _)
    have hlib : (Node.directory [("b.test.ts", .file []), ("b.ts", .file [])]).AllNames IsPlainName :=
      Node.allNames_of_entries (by
        rintro e (_ | ⟨_, _ | ⟨_, ⟨⟩⟩⟩)
        · exact ⟨⟨by decide, by decide⟩, hfile⟩
        · exact ⟨⟨by decide, by decide⟩, hfile⟩)
    refine Node.allNames_of_entries ?_
    rintro e (_ | ⟨_, ⟨⟩⟩)
    exact ⟨⟨by decide, by decide⟩, hlib⟩
  have hpatterns : ∀ pattern ∈ ["**/*.\x7bts,js\x7d"] ++ ["**/*.test.*"], IsNamePattern pattern := by
    rintro pattern (_ | ⟨_, _ | ⟨_, ⟨⟩⟩⟩)
    · exact ⟨"*.\x7bts,js\x7d", by decide +kernel, by decide +kernel, by decide +kernel⟩
    · exact ⟨"*.test.*", by decide +kernel, by decide +kernel, by decide +kernel⟩
  have hlib : Selection.isExcluded "/home" "src//" ["**/*.test.*"] true
      (Path.below "src//" ["lib"]) = false := by
    decide +kernel
  have hentered : ∀ name k, 0 < k → k < ["lib", name].length →
      Selection.isExcluded "/home" "src//" ["**/*.test.*"] true
        (Path.below "src//" (["lib", name].take k)) = false := by
    intro name k hpos hk
    obtain rfl : k = 1 := by
      simp only [List.length_cons, List.length_nil] at hk
      omega
    exact hlib
  obtain ⟨paths, log, hrun, hsource⟩ := @files_of_file_root testedSources "src//" _ ["lib", "b.ts"] []
    ["**/*.\x7bts,js\x7d"] ["**/*.test.*"] (by decide) hroot hplain hpatterns rfl (by decide +kernel)
    (hentered "b.ts") [] []
  obtain ⟨_, _, hrun', htest⟩ := @files_of_file_root testedSources "src//" _ ["lib", "b.test.ts"] []
    ["**/*.\x7bts,js\x7d"] ["**/*.test.*"] (by decide) hroot hplain hpatterns rfl (by decide +kernel)
    (hentered "b.test.ts") [] []
  cases hrun.symm.trans hrun'
  have hpath : Path.below "src//" ["lib", "b.ts"] = "src//lib/b.ts" := by decide +kernel
  have hpath' : Path.below "src//" ["lib", "b.test.ts"] = "src//lib/b.test.ts" := by decide +kernel
  rw [hpath] at hsource
  rw [hpath'] at htest
  -- What the scans of the two files give is computed, and tells what is listed.
  have hlisted : (files testedSources "src//lib/b.ts" ["**/*.\x7bts,js\x7d"] ["**/*.test.*"]).run.run [] =
      (.ok ["src//lib/b.ts"], []) := by
    have hchosen : Selection.choosesSpelling ["**/*.\x7bts,js\x7d"] ["**/*.test.*"]
        (Path.below "" ["b.ts"]) = true := by decide +kernel
    have h := @run_files_of_file testedSources [] (by decide) (Path.below "src//" ["lib"]) "b.ts"
      (by decide) (by decide +kernel) rfl ["**/*.\x7bts,js\x7d"] ["**/*.test.*"] []
    rw [if_pos hchosen] at h
    exact hpath ▸ h
  have hleft : (files testedSources "src//lib/b.test.ts" ["**/*.\x7bts,js\x7d"]
      ["**/*.test.*"]).run.run [] = (.ok [], []) := by
    have hchosen : Selection.choosesSpelling ["**/*.\x7bts,js\x7d"] ["**/*.test.*"]
        (Path.below "" ["b.test.ts"]) ≠ true := by decide +kernel
    have h := @run_files_of_file testedSources [] (by decide) (Path.below "src//" ["lib"]) "b.test.ts"
      (by decide) (by decide +kernel) rfl ["**/*.\x7bts,js\x7d"] ["**/*.test.*"] []
    rw [if_neg hchosen] at h
    exact hpath' ▸ h
  refine ⟨paths, log, hrun, ?_, hlisted, ?_, hleft⟩
  · by_contra hmem
    rw [if_neg hmem, hlisted] at hsource
    cases hsource
  · intro hmem
    rw [if_pos hmem, hleft] at htest
    cases htest

end Scan

end FlagAudit
