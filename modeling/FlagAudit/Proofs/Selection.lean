import FlagAudit.Proofs.Glob.Subtree
import FlagAudit.Proofs.Path.Relative
import FlagAudit.Selection

/-!
# What patterns see of an entry

Patterns see an entry below a root by the names that lead to it, with slashes in between, and by
nothing else (`isExcluded_below`, `isChosen_below`). If all exclude patterns end in two stars, a
directory that is excluded takes everything below it with it (`excludesSpelling_append`).
-/

namespace FlagAudit

namespace Glob

theorem slashed_ofList_slashed (path : String) :
    slashed (String.ofList (slashed path)) = slashed path := by
  rw [slashed, String.toList_ofList, slashed, List.map_map]
  refine List.map_congr_left fun c _ => ?_
  rw [Function.comp_apply]
  by_cases hc : c == '\\'
  · rw [if_pos hc]
    rfl
  · rw [if_neg hc, if_neg hc]

/-- Patterns do not tell paths apart that only differ in the kind of their slashes. -/
theorem anyMatches_congr {path path' : String} (h : slashed path = slashed path')
    (patterns : List String) : anyMatches patterns path = anyMatches patterns path' := by
  have hmatches : ∀ pattern, matchesPath pattern path = matchesPath pattern path' := by
    intro pattern
    rw [matchesPath, matchesPath, h]
  simp only [anyMatches, hmatches]

/-- A list of patterns matches one of several paths if one of its patterns does. -/
theorem any_anyMatches_iff {patterns paths : List String} :
    paths.any (anyMatches patterns) = true ↔
      ∃ pattern ∈ patterns, ∃ path ∈ paths, matchesPath pattern path = true := by
  simp only [anyMatches, List.any_eq_true]
  constructor
  · rintro ⟨path, hpath, pattern, hpattern, h⟩
    exact ⟨pattern, hpattern, path, hpath, h⟩
  · rintro ⟨pattern, hpattern, path, hpath, h⟩
    exact ⟨path, hpath, pattern, hpattern, h⟩

end Glob

namespace Selection

open FileTree (Location isEntryName)

variable {cwd root : String} {names : Location} {includes excludes : List String}

/-- The two forms in which patterns see a spelling: bare, and behind `./`. -/
def forms (spelling : String) : List String := [spelling, "./" ++ spelling]

/-- Whether an entry with a spelling is excluded. -/
def excludesSpelling (excludes : List String) (isDirectory : Bool) (spelling : String) : Bool :=
  (forms spelling).any fun form =>
    Glob.anyMatches excludes form || (isDirectory && Glob.anyMatches excludes (form ++ "/"))

/-- Whether a file with a spelling is chosen. -/
def choosesSpelling (includes excludes : List String) (spelling : String) : Bool :=
  !excludesSpelling excludes false spelling &&
    (includes.isEmpty || (forms spelling).any (Glob.anyMatches includes))

/-! ### Spellings instead of paths -/

/-- Patterns do not tell spellings apart that only differ in the kind of their slashes. -/
theorem any_forms_congr {spelling spelling' : String}
    (h : Glob.slashed spelling = Glob.slashed spelling') {f : String → Bool}
    (hf : ∀ form form', Glob.slashed form = Glob.slashed form' → f form = f form') :
    (forms spelling).any f = (forms spelling').any f := by
  have hdot : Glob.slashed ("./" ++ spelling) = Glob.slashed ("./" ++ spelling') := by
    rw [Glob.slashed_append, Glob.slashed_append, h]
  rw [forms, forms, List.any_cons, List.any_cons, List.any_cons, List.any_cons, hf _ _ h,
    hf _ _ hdot]

theorem excludesSpelling_congr {spelling spelling' : String}
    (h : Glob.slashed spelling = Glob.slashed spelling') (isDirectory : Bool) :
    excludesSpelling excludes isDirectory spelling =
      excludesSpelling excludes isDirectory spelling' := by
  refine any_forms_congr h fun form form' hform => ?_
  have hslash : Glob.slashed (form ++ "/") = Glob.slashed (form' ++ "/") := by
    rw [Glob.slashed_append, Glob.slashed_append, hform]
  rw [Glob.anyMatches_congr hform, Glob.anyMatches_congr hslash]

/-- Without patterns nothing is excluded. -/
theorem excludesSpelling_nil (isDirectory : Bool) (spelling : String) :
    excludesSpelling [] isDirectory spelling = false := by
  cases isDirectory <;> rfl

/-- A path is excluded by its spelling from the root. -/
theorem isExcluded_eq (cwd root path : String) (isDirectory : Bool) :
    isExcluded cwd root excludes isDirectory path =
      excludesSpelling excludes isDirectory (Path.relative cwd path root) := by
  rw [← excludesSpelling_congr (Glob.slashed_ofList_slashed (Path.relative cwd path root))]
  cases excludes with
  | nil =>
    rw [excludesSpelling_nil]
    rfl
  | cons => rfl

/-- A file is chosen by its spelling from the root. -/
theorem isChosen_eq (cwd root path : String) :
    isChosen cwd root includes excludes path =
      choosesSpelling includes excludes (Path.relative cwd path root) := by
  have hincluded := any_forms_congr (Glob.slashed_ofList_slashed (Path.relative cwd path root))
    fun _ _ hform => Glob.anyMatches_congr hform includes
  rw [isChosen, isExcluded_eq, choosesSpelling, ← hincluded]
  rfl

/-- An entry below the root is excluded by the names that lead to it. -/
theorem isExcluded_below (hcwd : Path.isAbsolute cwd = true) (hne : names ≠ [])
    (hnames : ∀ n ∈ names, isEntryName n = true) (isDirectory : Bool) :
    isExcluded cwd root excludes isDirectory (Path.below root names) =
      excludesSpelling excludes isDirectory (Path.below "" names) := by
  rw [isExcluded_eq, Path.relative_below hcwd hne hnames]

/-- A file below the root is chosen by the names that lead to it. -/
theorem isChosen_below (hcwd : Path.isAbsolute cwd = true) (hne : names ≠ [])
    (hnames : ∀ n ∈ names, isEntryName n = true) :
    isChosen cwd root includes excludes (Path.below root names) =
      choosesSpelling includes excludes (Path.below "" names) := by
  rw [isChosen_eq, Path.relative_below hcwd hne hnames]

/-! ### Everything below a directory -/

/-- An entry is excluded if some pattern matches one of its forms. Of a directory, the forms with a slash
behind count too. -/
theorem excludesSpelling_iff {isDirectory : Bool} {spelling : String} :
    excludesSpelling excludes isDirectory spelling = true ↔
      ∃ pattern ∈ excludes, ∃ form ∈ forms spelling, Glob.matchesPath pattern form = true ∨
        isDirectory = true ∧ Glob.matchesPath pattern (form ++ "/") = true := by
  simp only [excludesSpelling, Glob.anyMatches, List.any_eq_true, Bool.or_eq_true,
    Bool.and_eq_true]
  constructor
  · rintro ⟨form, hform, ⟨pattern, hpattern, h⟩ | ⟨hdirectory, pattern, hpattern, h⟩⟩
    · exact ⟨pattern, hpattern, form, hform, .inl h⟩
    · exact ⟨pattern, hpattern, form, hform, .inr ⟨hdirectory, h⟩⟩
  · rintro ⟨pattern, hpattern, form, hform, h | ⟨hdirectory, h⟩⟩
    · exact ⟨form, hform, .inl ⟨pattern, hpattern, h⟩⟩
    · exact ⟨form, hform, .inr ⟨hdirectory, pattern, hpattern, h⟩⟩

/-- A longer spelling has longer forms. -/
theorem append_mem_forms {form spelling : String} (h : form ∈ forms spelling) (more : String) :
    form ++ more ∈ forms (spelling ++ more) := by
  rw [forms, List.mem_cons, List.mem_singleton] at h ⊢
  rcases h with rfl | rfl
  · exact .inl rfl
  · exact .inr (String.append_assoc ..)

/-- A form has no line feed if its spelling has none. -/
theorem lineFeed_not_mem_form {form spelling : String} (h : form ∈ forms spelling)
    (hline : '\n' ∉ spelling.toList) : '\n' ∉ form.toList := by
  rw [forms, List.mem_cons, List.mem_singleton] at h
  rcases h with rfl | rfl
  · exact hline
  · rw [String.toList_append, List.mem_append]
    rintro (hmem | hmem)
    · revert hmem
      decide
    · exact hline hmem

/-- If all exclude patterns end in two stars, everything below an excluded directory is excluded by
its own spelling. -/
theorem excludesSpelling_append (hexcludes : ∀ p ∈ excludes, ['*', '*'] <:+ p.toList)
    {spelling more : String} (hline : '\n' ∉ (spelling ++ ("/" ++ more)).toList)
    (h : excludesSpelling excludes true spelling = true) :
    excludesSpelling excludes false (spelling ++ ("/" ++ more)) = true := by
  obtain ⟨pattern, hpattern, form, hform, h⟩ := excludesSpelling_iff.mp h
  have hlonger := append_mem_forms hform ("/" ++ more)
  have hformLine := lineFeed_not_mem_form hlonger hline
  refine excludesSpelling_iff.mpr ⟨pattern, hpattern, form ++ ("/" ++ more), hlonger, .inl ?_⟩
  rcases h with h | ⟨-, h⟩
  · exact Glob.matchesPath_append (hexcludes pattern hpattern) h hformLine
  · rw [← String.append_assoc] at hformLine ⊢
    exact Glob.matchesPath_append (hexcludes pattern hpattern) h hformLine

end Selection

end FlagAudit
