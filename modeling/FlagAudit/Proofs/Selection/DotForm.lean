import FlagAudit.Proofs.Glob.Parts
import FlagAudit.Proofs.Selection

/-!
# What the form behind a dot adds

Patterns see a path also behind `./`, so that a pattern that starts with two stars and a slash reaches
the entries of the root. Other patterns are affected too: if the first part of a pattern has no pair of
stars, the pattern matches that form exactly if its first part matches a dot and the rest of it matches
the path (`matchesPath_dot_iff`). A pattern for hidden directories is of this kind, because a star
behind a dot stands for nothing as well.
-/

namespace FlagAudit

namespace Glob

variable {pattern path : String}

/-- The first part of a pattern stands for a dot, and the rest of the pattern matches a path. -/
def MatchesBehindDot (pattern path : String) : Prop :=
  ∃ rest, pattern = firstPart pattern ++ "/" ++ rest ∧ matchesPath (firstPart pattern) "." = true ∧
    matchesPath rest path = true

/-- The first part of a pattern has to account for the dot. -/
theorem matchesPath_dot_iff (hpair : ¬ ['*', '*'] <:+: (firstPart pattern).toList) :
    matchesPath pattern ("./" ++ path) = true ↔ MatchesBehindDot pattern path := by
  have hfirst : Shallow (firstPart pattern).toList := ⟨slash_not_mem_firstPart pattern, hpair⟩
  have hrest : ∀ rest, matchesPath (firstPart pattern ++ "/" ++ rest) ("./" ++ path) = true ↔
      matchesPath (firstPart pattern) "." = true ∧ matchesPath rest path = true := fun rest =>
    @matchesPath_slash_iff _ rest "." path hfirst (by decide) (by decide)
  constructor
  · intro h
    rcases firstPart_cases pattern with hwhole | ⟨rest, hpattern⟩
    · have hslash : '/' ∈ slashed ("./" ++ path) := by
        rw [slashed_append]
        exact List.mem_append_left _ (by decide)
      rw [hwhole, not_matchesPath_of_slash hfirst hslash] at h
      cases h
    · rw [hpattern] at h
      exact ⟨rest, hpattern, (hrest rest).mp h⟩
  · rintro ⟨rest, hpattern, h⟩
    rw [hpattern]
    exact (hrest rest).mpr h

/-- One pattern matches if it matches. -/
theorem anyMatches_singleton (pattern path : String) :
    anyMatches [pattern] path = matchesPath pattern path := by
  rw [anyMatches, List.any_cons, List.any_nil, Bool.or_false]

end Glob

namespace Selection

open FileTree (Location isEntryName)
open Glob (firstPart matchesPath MatchesBehindDot)

/-- A pattern matches a spelling of a path if it matches the relative path, bare or behind a dot. -/
theorem any_spellings_iff (cwd root path pattern : String) :
    (spellings cwd root path).any (Glob.anyMatches [pattern]) = true ↔
      matchesPath pattern (Path.relative cwd path root) = true ∨
        matchesPath pattern ("./" ++ Path.relative cwd path root) = true := by
  have hforms := any_forms_congr (Glob.slashed_ofList_slashed (Path.relative cwd path root))
    fun _ _ hform => Glob.anyMatches_congr hform [pattern]
  have hspellings : spellings cwd root path =
      forms (String.ofList (Glob.slashed (Path.relative cwd path root))) := rfl
  rw [hspellings, hforms]
  simp only [forms, List.any_cons, List.any_nil, Bool.or_false, Bool.or_eq_true,
    Glob.anyMatches_singleton]

theorem isExcluded_singleton (cwd root path pattern : String) :
    isExcluded cwd root [pattern] false path =
      (spellings cwd root path).any (Glob.anyMatches [pattern]) := by
  simp [isExcluded]

theorem isChosen_singleton (cwd root path pattern : String) :
    isChosen cwd root [pattern] [] path =
      (spellings cwd root path).any (Glob.anyMatches [pattern]) := by
  simp [isChosen, isExcluded]

/-- If the first part of a pattern has no pair of stars, the pattern excludes an entry, or chooses a
file, exactly if it matches the relative path itself, or if its first part matches a dot and the rest of
it matches the relative path. -/
theorem selects_iff_relative_or_behindDot (cwd root path : String) {pattern : String}
    (hpair : ¬ ['*', '*'] <:+: (firstPart pattern).toList) :
    (isExcluded cwd root [pattern] false path = true ↔
      matchesPath pattern (Path.relative cwd path root) = true ∨
        MatchesBehindDot pattern (Path.relative cwd path root)) ∧
    (isChosen cwd root [pattern] [] path = true ↔
      matchesPath pattern (Path.relative cwd path root) = true ∨
        MatchesBehindDot pattern (Path.relative cwd path root)) := by
  rw [isExcluded_singleton, isChosen_singleton, any_spellings_iff, Glob.matchesPath_dot_iff hpair]
  exact ⟨Iff.rfl, Iff.rfl⟩

/-- A pattern for what is in hidden directories excludes a file that is in none, because its first part
matches a dot; a pattern for what is in one directory excludes what it matches. -/
theorem excludes_behindDot :
    ¬ ['*', '*'] <:+: (firstPart ".*/**").toList ∧ ¬ ['*', '*'] <:+: (firstPart "src/*").toList ∧
      matchesPath ".*/**" "app.ts" = false ∧
      isExcluded "/" "." [".*/**"] false "./app.ts" = true ∧
      isExcluded "/" "lib/.." ["src/*"] false "src/app.ts" = true ∧
      isChosen "/" "lib/.." ["src/*"] [] "src/app.ts" = true := by
  have hhidden : ¬ ['*', '*'] <:+: (firstPart ".*/**").toList := by decide
  have hsources : ¬ ['*', '*'] <:+: (firstPart "src/*").toList := by decide
  have hbehind : MatchesBehindDot ".*/**" (Path.relative "/" "./app.ts" ".") :=
    ⟨"**", rfl, by decide +kernel, by decide +kernel⟩
  have hrelative : matchesPath "src/*" (Path.relative "/" "src/app.ts" "lib/..") = true := by
    decide +kernel
  refine ⟨hhidden, hsources, by decide +kernel, ?_, ?_, ?_⟩
  · exact (selects_iff_relative_or_behindDot "/" "." "./app.ts" hhidden).1.mpr (.inr hbehind)
  · exact (selects_iff_relative_or_behindDot "/" "lib/.." "src/app.ts" hsources).1.mpr
      (.inl hrelative)
  · exact (selects_iff_relative_or_behindDot "/" "lib/.." "src/app.ts" hsources).2.mpr
      (.inl hrelative)

/-- Not only the relative path counts: a pattern whose first part is neither a dot nor has a pair of
stars can match an entry only behind a dot. -/
theorem not_always_by_relative :
    ¬ ∀ (cwd root pattern : String) (names : Location), Path.isAbsolute cwd = true → names ≠ [] →
      (∀ n ∈ names, isEntryName n = true) → ¬ ['*', '*'] <:+: (firstPart pattern).toList →
      firstPart pattern ≠ "." →
      (isExcluded cwd root [pattern] false (Path.below root names) = true ↔
        matchesPath pattern (Path.below "" names) = true) ∧
      (isChosen cwd root [pattern] [] (Path.below root names) = true ↔
        matchesPath pattern (Path.below "" names) = true) := by
  intro h
  have hexcluded := (h "/" "." ".*/**" ["app.ts"] rfl (List.cons_ne_nil _ _) (by decide) (by decide)
    (by decide)).1.mp (by decide +kernel)
  revert hexcluded
  decide +kernel

end Selection

end FlagAudit
