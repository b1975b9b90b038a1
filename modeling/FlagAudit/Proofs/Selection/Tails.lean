import FlagAudit.Proofs.Selection.Depth
import FlagAudit.Proofs.Selection.DotForm

/-!
# Patterns for the tails of a path

A pattern that starts with two stars and a slash does not match what is in the root itself, because it
asks for a slash; the form behind a dot makes up for that. Together the two forms make such a pattern look
at the tails of a path: what is behind the two stars and the slash has to match the last names of an entry,
from some name on and all of them at most (`selects_atEveryDepth_iff`). A tail never starts inside a name,
however many slashes and stars the pattern has itself.
-/

namespace FlagAudit.Selection

open FileTree (Location isEntryName)
open Glob (Cuts matchesPath slashed)
open FlagAudit.Path (joinParts)

variable {names : Location} {pattern : String}

/-- The last names of an entry are names of an entry. -/
theorem hasParts_drop (hnames : ∀ n ∈ names, isEntryName n = true) (h : ∀ n ∈ names, IsPlainName n)
    {k : Nat} (hk : k < names.length) :
    HasParts (Path.below "" (names.drop k)) ((names.drop k).map String.toList) := by
  have hne : names.drop k ≠ [] := by
    intro hnil
    have hlength := List.drop_eq_nil_iff.mp hnil
    omega
  refine hasParts_below hne ?_ ?_
  · intro n hn
    exact hnames n (List.mem_of_mem_drop hn)
  · intro n hn
    exact h n (List.mem_of_mem_drop hn)

/-- A pattern matches the spelling of some names if it can be cut to their parts. -/
theorem matchesPath_iff_of_hasParts {ts : List Glob.Token} {spelling : String}
    {parts : List (List Char)} (hts : Glob.PatternTokens pattern.toList ts)
    (h : HasParts spelling parts) : matchesPath pattern spelling = true ↔ Cuts ts (joinParts parts) := by
  have hline : '\n' ∉ slashed spelling := h.slashed_eq ▸ h.noLineFeed
  rw [Glob.matchesPath_iff_cuts hts hline, h.slashed_eq]

/-- Lists of parts that are tails of the parts of some names are the parts of their last names. -/
theorem parts_suffix_iff {parts : List (List Char)} :
    parts ≠ [] ∧ parts <:+ names.map String.toList ↔
      ∃ k, k < names.length ∧ parts = (names.drop k).map String.toList := by
  constructor
  · rintro ⟨hne, hsuffix⟩
    have hlength := hsuffix.length_le
    have hpos := List.length_pos_iff.mpr hne
    rw [List.length_map] at hlength
    refine ⟨names.length - parts.length, by omega, ?_⟩
    have hdrop := List.suffix_iff_eq_drop.mp hsuffix
    rwa [List.length_map, ← List.map_drop] at hdrop
  · rintro ⟨k, hk, rfl⟩
    constructor
    · intro hnil
      have hlength := congrArg List.length hnil
      simp at hlength
      omega
    · rw [List.map_drop]
      exact List.drop_suffix k _

/-- At every depth, a pattern matches a form of the spelling of some names if it matches the spelling of
the last of them, from some name on. -/
theorem matchesForm_atEveryDepth_iff (hne : names ≠ []) (hnames : ∀ n ∈ names, isEntryName n = true)
    (h : ∀ n ∈ names, IsPlainName n) :
    MatchesForm (atEveryDepth pattern) (Path.below "" names) ↔
      ∃ k, k < names.length ∧ matchesPath pattern (Path.below "" (names.drop k)) = true := by
  obtain ⟨ts, hts⟩ := Glob.exists_patternTokens pattern.toList
  have hparts := hasParts_below hne hnames h
  have hline : '\n' ∉ slashed (Path.below "" names) := hparts.slashed_eq ▸ hparts.noLineFeed
  have hne' : names.map String.toList ≠ [] := by simpa using hne
  rw [matchesForm_iff_cuts (patternTokens_atEveryDepth hts) hline, hparts.slashed_eq,
    Glob.cuts_anyDepth_iff hne' hparts.noSlash hparts.noLineFeed]
  constructor
  · rintro ⟨parts, hparts, hsuffix, hcuts⟩
    obtain ⟨k, hk, rfl⟩ := parts_suffix_iff.mp ⟨hparts, hsuffix⟩
    exact ⟨k, hk, (matchesPath_iff_of_hasParts hts (hasParts_drop hnames h hk)).mpr hcuts⟩
  · rintro ⟨k, hk, hmatches⟩
    obtain ⟨hparts, hsuffix⟩ := parts_suffix_iff.mpr ⟨k, hk, rfl⟩
    exact ⟨_, hparts, hsuffix, (matchesPath_iff_of_hasParts hts (hasParts_drop hnames h hk)).mp hmatches⟩

/-- A pattern at every depth excludes an entry below the root, or chooses a file there, exactly if the
pattern matches the names that lead to it from some name on, all of them included. -/
theorem selects_atEveryDepth_iff {cwd : String} (hcwd : Path.isAbsolute cwd = true)
    (hne : names ≠ []) (hnames : ∀ n ∈ names, isEntryName n = true) (h : ∀ n ∈ names, IsPlainName n)
    (root pattern : String) :
    (isExcluded cwd root ["**/" ++ pattern] false (Path.below root names) = true ↔
      ∃ k, k < names.length ∧ matchesPath pattern (Path.below "" (names.drop k)) = true) ∧
    (isChosen cwd root ["**/" ++ pattern] [] (Path.below root names) = true ↔
      ∃ k, k < names.length ∧ matchesPath pattern (Path.below "" (names.drop k)) = true) := by
  have hexcluded : isExcluded cwd root ["**/" ++ pattern] false (Path.below root names) = true ↔
      MatchesForm (atEveryDepth pattern) (Path.below "" names) := by
    rw [isExcluded_below hcwd hne hnames, excludesSpelling_iff_matchesForm]
    simp [atEveryDepth]
  have hchosen : isChosen cwd root ["**/" ++ pattern] [] (Path.below root names) =
      isExcluded cwd root ["**/" ++ pattern] false (Path.below root names) := by
    rw [isChosen_singleton, isExcluded_singleton]
  rw [hchosen, hexcluded, matchesForm_atEveryDepth_iff hne hnames h]
  exact ⟨Iff.rfl, Iff.rfl⟩

/-- A pattern of two parts chooses a file by its last two names, though not by a part of a name, and a
file in the root by its only name. -/
theorem selects_lastNames :
    isChosen "/home" "." ["**/" ++ "src/*.ts"] [] (Path.below "." ["lib", "src", "app.ts"]) = true ∧
      isChosen "/home" "." ["**/" ++ "src/*.ts"] [] (Path.below "." ["libsrc", "app.ts"]) = false ∧
      isExcluded "/home" "lib/.." ["**/" ++ "*.ts"] false (Path.below "lib/.." ["app.ts"]) = true := by
  have hcwd : Path.isAbsolute "/home" = true := by decide
  have hdeep := @selects_atEveryDepth_iff ["lib", "src", "app.ts"] _ hcwd (by decide) (by decide)
    (by decide) "." "src/*.ts"
  have hother := @selects_atEveryDepth_iff ["libsrc", "app.ts"] _ hcwd (by decide) (by decide)
    (by decide) "." "src/*.ts"
  have htop := @selects_atEveryDepth_iff ["app.ts"] _ hcwd (by decide) (by decide) (by decide)
    "lib/.." "*.ts"
  refine ⟨hdeep.2.mpr ⟨1, by decide, by decide +kernel⟩, ?_, htop.1.mpr ⟨0, by decide, by decide +kernel⟩⟩
  rw [← Bool.not_eq_true, hother.2]
  decide +kernel

end FlagAudit.Selection
