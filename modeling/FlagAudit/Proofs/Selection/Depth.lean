import FlagAudit.Config.Basic
import FlagAudit.Proofs.Glob.Depth
import FlagAudit.Proofs.Selection

/-!
# Patterns for names at every depth

A pattern that starts with two stars and a slash selects an entry by the last names that lead to it. Of
the patterns of the default configuration, those that include look at the name of a file alone
(`includes_default_iff`), and those that exclude look for the name of a directory: among the ancestors of
a file, and also at a directory itself (`excludes_default_iff`).
-/

namespace FlagAudit.Selection

open FileTree (Location isEntryName)
open Glob (PatternTokens PartTokens Token Cuts anyDepth slashed)
open FlagAudit.Path (joinParts)

variable {ts : List Token} {includes excludes : List String} {pattern spelling : String}

/-! ### Forms of a spelling -/

/-- A pattern matches one of the forms of a spelling. -/
def MatchesForm (pattern spelling : String) : Prop :=
  ∃ form ∈ forms spelling, Glob.matchesPath pattern form = true

theorem matchesForm_iff_cuts (h : PatternTokens pattern.toList ts) (hline : '\n' ∉ slashed spelling) :
    MatchesForm pattern spelling ↔
      Cuts ts (slashed spelling) ∨ Cuts ts ('.' :: '/' :: slashed spelling) := by
  have hdot : slashed ("./" ++ spelling) = '.' :: '/' :: slashed spelling := by
    rw [Glob.slashed_append]
    rfl
  have hdotLine : '\n' ∉ slashed ("./" ++ spelling) := by
    rw [hdot, List.mem_cons, List.mem_cons, not_or, not_or]
    exact ⟨by decide, by decide, hline⟩
  simp only [MatchesForm, forms, List.mem_cons, List.not_mem_nil, or_false, or_and_right,
    exists_or, exists_eq_left, Glob.matchesPath_iff_cuts h hline, Glob.matchesPath_iff_cuts h hdotLine,
    hdot]

/-- A directory is excluded by its spelling, or by its spelling with a slash behind. -/
theorem excludesSpelling_iff_matchesForm {isDirectory : Bool} :
    excludesSpelling excludes isDirectory spelling = true ↔
      ∃ pattern ∈ excludes, MatchesForm pattern spelling ∨
        isDirectory = true ∧ MatchesForm pattern (spelling ++ "/") := by
  have hbare : ∀ pattern, MatchesForm pattern spelling ↔
      ∃ form ∈ forms spelling, Glob.matchesPath pattern form = true := fun _ => Iff.rfl
  have hslash : ∀ pattern, MatchesForm pattern (spelling ++ "/") ↔
      ∃ form ∈ forms spelling, Glob.matchesPath pattern (form ++ "/") = true := by
    intro pattern
    simp [MatchesForm, forms, String.append_assoc]
  simp only [excludesSpelling_iff, hbare, hslash, and_or_left, exists_or, exists_and_left,
    @and_left_comm _ (isDirectory = true)]

/-- A file is chosen if no exclude pattern matches its spelling and some include pattern does. -/
theorem choosesSpelling_iff (hincludes : includes ≠ []) :
    choosesSpelling includes excludes spelling = true ↔
      excludesSpelling excludes false spelling = false ∧
        ∃ pattern ∈ includes, MatchesForm pattern spelling := by
  have hempty : includes.isEmpty = false := List.isEmpty_eq_false_iff.mpr hincludes
  simp only [choosesSpelling, hempty, Bool.false_or, Bool.and_eq_true, Bool.not_eq_true',
    Glob.any_anyMatches_iff, MatchesForm]

/-! ### The last names -/

/-- A name that patterns see as it is, within one line. -/
structure IsPlainName (name : String) : Prop where
  /-- It has no line feed. -/
  noLineFeed : '\n' ∉ name.toList
  /-- It has no backslash. -/
  noBackslash : '\\' ∉ name.toList

instance : DecidablePred IsPlainName := fun name =>
  decidable_of_iff ('\n' ∉ name.toList ∧ '\\' ∉ name.toList)
    ⟨fun h => ⟨h.1, h.2⟩, fun h => ⟨h.noLineFeed, h.noBackslash⟩⟩

/-- What patterns see of a spelling is made of these parts, which are within one line. -/
structure HasParts (spelling : String) (parts : List (List Char)) : Prop where
  /-- The parts, with slashes between them. -/
  slashed_eq : slashed spelling = joinParts parts
  /-- No part has a slash. -/
  noSlash : ∀ p ∈ parts, '/' ∉ p
  /-- There is no line feed. -/
  noLineFeed : '\n' ∉ joinParts parts

theorem slashed_eq_self {path : String} (h : '\\' ∉ path.toList) : slashed path = path.toList := by
  rw [slashed]
  refine (List.map_congr_left fun c hc => ?_).trans (List.map_id' _)
  rw [if_neg]
  rintro heq
  exact h (beq_iff_eq.mp heq ▸ hc)

/-- The spelling of an entry is made of the names that lead to it. -/
theorem hasParts_below {names : Location} (hne : names ≠ [])
    (hnames : ∀ n ∈ names, isEntryName n = true) (h : ∀ n ∈ names, IsPlainName n) :
    HasParts (Path.below "" names) (names.map String.toList) where
  slashed_eq := by
    rw [slashed_eq_self, Path.toList_below_empty hne hnames]
    intro hmem
    rcases Path.mem_below_empty hnames hmem with hslash | ⟨n, hn, hmem⟩
    · revert hslash
      decide
    · exact (h n hn).noBackslash hmem
  noSlash p hp := by
    obtain ⟨n, hn, rfl⟩ := List.mem_map.mp hp
    exact (Path.of_isEntryName (hnames n hn)).2
  noLineFeed hmem := by
    rcases Path.mem_joinParts hmem with hslash | ⟨p, hp, hmem⟩
    · revert hslash
      decide
    · obtain ⟨n, hn, rfl⟩ := List.mem_map.mp hp
      exact (h n hn).noLineFeed hmem

/-- A slash behind a spelling adds an empty part. -/
theorem HasParts.append_slash {parts : List (List Char)} (h : HasParts spelling parts)
    (hne : parts ≠ []) : HasParts (spelling ++ "/") (parts ++ [[]]) := by
  have hjoin : joinParts (parts ++ [[]]) = joinParts parts ++ ['/'] := by
    rw [Path.joinParts_append hne (List.cons_ne_nil _ _)]
    rfl
  refine ⟨?_, ?_, ?_⟩
  · rw [Glob.slashed_append, h.slashed_eq, hjoin]
    rfl
  · intro p hp
    rcases List.mem_append.mp hp with hp | hp
    · exact h.noSlash p hp
    · exact List.mem_singleton.mp hp ▸ List.not_mem_nil
  · rw [hjoin, List.mem_append, not_or]
    exact ⟨h.noLineFeed, by decide⟩

/-- The pattern that looks for something at every depth. -/
def atEveryDepth (pattern : String) : String := "**/" ++ pattern

theorem patternTokens_atEveryDepth (h : PatternTokens pattern.toList ts) :
    PatternTokens (atEveryDepth pattern).toList (anyDepth ts) := by
  have hlist : (atEveryDepth pattern).toList = '*' :: '*' :: '/' :: pattern.toList := by
    simp [atEveryDepth]
  exact hlist ▸ Glob.patternTokens_anyDepth h

/-- At every depth, a part without a pair of stars looks at the last part of a spelling alone. -/
theorem matchesForm_within_iff {parts : List (List Char)} {last : List Char}
    (hpattern : Glob.Shallow pattern.toList) (hts : PartTokens pattern.toList ts)
    (h : HasParts spelling (parts ++ [last])) :
    MatchesForm (atEveryDepth pattern) spelling ↔ Cuts ts last := by
  have hline : '\n' ∉ slashed spelling := h.slashed_eq ▸ h.noLineFeed
  have htokens := patternTokens_atEveryDepth ((Glob.patternTokens_iff_of_part hpattern.noSlash).mpr hts)
  rw [matchesForm_iff_cuts htokens hline, h.slashed_eq,
    Glob.cuts_anyDepth_within_iff (hts.within hpattern) h.noSlash h.noLineFeed]

/-- The pattern for everything below directories with a name. -/
def subtreePattern (dir : String) : String := atEveryDepth (dir ++ "/**")

theorem patternTokens_subtree {dir : String} (hslash : '/' ∉ dir.toList)
    (hdir : ∀ c ∈ dir.toList, c ≠ '*' ∧ c ≠ '\x7b') :
    PatternTokens (subtreePattern dir).toList
      (anyDepth (dir.toList.map .char ++ [.char '/', .pair])) := by
  have hname : PartTokens dir.toList (dir.toList.map .char) := by
    simpa using Glob.partTokens_literal_append hdir .nil
  have hstars : PatternTokens ['*', '*'] [.pair] :=
    (Glob.patternTokens_iff_of_part (by decide)).mpr (.pair .nil)
  have hlist : (dir ++ "/**").toList = dir.toList ++ '/' :: ['*', '*'] := by simp
  refine patternTokens_atEveryDepth (hlist ▸ (Glob.patternTokens_slash_iff hslash).mpr ?_)
  exact ⟨_, _, hname, hstars, rfl⟩

/-- Such a pattern looks for the name among the parts before the last one. -/
theorem matchesForm_subtree_iff {dir : String} {parts : List (List Char)} {last : List Char}
    (hslash : '/' ∉ dir.toList) (hdir : ∀ c ∈ dir.toList, c ≠ '*' ∧ c ≠ '\x7b')
    (h : HasParts spelling (parts ++ [last])) :
    MatchesForm (subtreePattern dir) spelling ↔ dir.toList ∈ parts := by
  have hline : '\n' ∉ slashed spelling := h.slashed_eq ▸ h.noLineFeed
  rw [matchesForm_iff_cuts (patternTokens_subtree hslash hdir) hline, h.slashed_eq,
    Glob.cuts_anyDepth_subtree_iff hslash h.noSlash h.noLineFeed]

/-! ### The default patterns -/

/-- The directories that are left out by default. -/
def generatedDirectories : List String := ["node_modules", "dist", "build"]

/-- The ends of the names of source files. -/
def sourceEndings : List String := [".ts", ".tsx", ".js", ".jsx"]

/-- The name of a source file or of an environment file. -/
def IsSourceName (name : String) : Prop :=
  (∃ ending ∈ sourceEndings, ending.toList <:+ name.toList) ∨ name = ".env" ∨
    ".env.".toList <+: name.toList

instance : DecidablePred IsSourceName := fun name =>
  inferInstanceAs (Decidable ((∃ ending ∈ sourceEndings, ending.toList <:+ name.toList) ∨
    name = ".env" ∨ ".env.".toList <+: name.toList))

theorem default_excludes : ({} : Config).excludes = generatedDirectories.map subtreePattern := rfl

theorem default_includes :
    ({} : Config).includes = ["*.\x7bts,tsx,js,jsx\x7d", ".env", ".env.*"].map atEveryDepth := rfl

theorem generated_literal {dir : String} (h : dir ∈ generatedDirectories) :
    '/' ∉ dir.toList ∧ ∀ c ∈ dir.toList, c ≠ '*' ∧ c ≠ '\x7b' := by
  revert dir
  simp [generatedDirectories]

theorem toList_mem_map {n : String} {names : Location} :
    n.toList ∈ names.map String.toList ↔ n ∈ names :=
  List.mem_map_of_injective fun _ _ => String.toList_inj.mp

/-- By default an entry is excluded if one of its ancestors is a directory that is left out; a directory
is excluded also if it is such a directory itself. -/
theorem excludes_default_iff {names : Location} {name : String} {isDirectory : Bool}
    (hnames : ∀ n ∈ names ++ [name], isEntryName n = true)
    (h : ∀ n ∈ names ++ [name], IsPlainName n) :
    excludesSpelling ({} : Config).excludes isDirectory (Path.below "" (names ++ [name])) = true ↔
      ∃ dir ∈ generatedDirectories, dir ∈ names ∨ isDirectory = true ∧ dir = name := by
  have hne : names ++ [name] ≠ [] := List.append_ne_nil_of_right_ne_nil _ (List.cons_ne_nil _ _)
  have hparts := hasParts_below hne hnames h
  have hslash := hparts.append_slash (by simp)
  rw [List.map_append] at hparts
  rw [default_excludes]
  simp only [excludesSpelling_iff_matchesForm, List.mem_map, exists_exists_and_eq_and]
  refine exists_congr fun dir => and_congr_right fun hdir => ?_
  obtain ⟨hnoSlash, hliteral⟩ := generated_literal hdir
  rw [matchesForm_subtree_iff hnoSlash hliteral hparts, matchesForm_subtree_iff hnoSlash hliteral hslash,
    toList_mem_map, toList_mem_map, List.mem_append, List.mem_singleton]
  tauto

/-! #### Names of files -/

theorem cuts_star_iff (s : List Char) : Cuts [.star] s ↔ '/' ∉ s := by
  rw [Glob.cuts_cons_iff]
  constructor
  · rintro ⟨piece, _, rfl, hpiece, hnil⟩
    rwa [(Glob.cuts_nil_iff _).mp hnil, List.append_nil]
  · intro h
    exact ⟨s, [], (List.append_nil s).symm, h, (Glob.cuts_nil_iff []).mpr rfl⟩

/-- A star, a dot and an extension stand for the names that end in the dot and the extension. -/
theorem cuts_extension_iff {extensions : List (List Char)} {name : List Char} (h : '/' ∉ name) :
    Cuts [.star, .char '.', .oneOf extensions] name ↔
      ∃ extension ∈ extensions, '.' :: extension <:+ name := by
  simp only [Glob.cuts_cons_iff, Glob.cuts_nil_iff]
  constructor
  · rintro ⟨front, _, rfl, -, _, _, rfl, rfl, extension, _, rfl, hextension, rfl⟩
    exact ⟨extension, hextension, front, by simp⟩
  · rintro ⟨extension, hextension, front, rfl⟩
    refine ⟨front, _, rfl, fun hmem => h (List.mem_append_left _ hmem), ['.'], extension, rfl, rfl, ?_⟩
    exact ⟨extension, [], (List.append_nil _).symm, hextension, rfl⟩

theorem partTokens_source : PartTokens "*.\x7bts,tsx,js,jsx\x7d".toList
    [.star, .char '.', .oneOf [['t', 's'], ['t', 's', 'x'], ['j', 's'], ['j', 's', 'x']]] := by
  have hgroup := @PartTokens.group "ts,tsx,js,jsx".toList [] [] (by decide) (by decide) .nil
  exact .star (by decide) (.char (by decide) (fun hbrace => absurd hbrace (by decide)) hgroup)

theorem partTokens_environment : PartTokens ".env".toList (".env".toList.map .char) := by
  have hliteral : ∀ c ∈ ".env".toList, c ≠ '*' ∧ c ≠ '\x7b' := by simp
  exact Glob.partTokens_literal_append hliteral .nil

theorem partTokens_environmentVariant :
    PartTokens ".env.*".toList (".env.".toList.map .char ++ [.star]) := by
  have hliteral : ∀ c ∈ ".env.".toList, c ≠ '*' ∧ c ≠ '\x7b' := by simp
  exact Glob.partTokens_literal_append hliteral (.star (by decide) .nil)

/-- By default a file is included by its own name. -/
theorem includes_default_iff {names : Location} {name : String}
    (hnames : ∀ n ∈ names ++ [name], isEntryName n = true)
    (h : ∀ n ∈ names ++ [name], IsPlainName n) :
    (∃ pattern ∈ ({} : Config).includes, MatchesForm pattern (Path.below "" (names ++ [name]))) ↔
      IsSourceName name := by
  have hne : names ++ [name] ≠ [] := List.append_ne_nil_of_right_ne_nil _ (List.cons_ne_nil _ _)
  have hparts := hasParts_below hne hnames h
  rw [List.map_append] at hparts
  have hslash : '/' ∉ name.toList := hparts.noSlash _ (List.mem_append_right _ List.mem_cons_self)
  have hsource : MatchesForm (atEveryDepth "*.\x7bts,tsx,js,jsx\x7d")
      (Path.below "" (names ++ [name])) ↔
      ∃ ending ∈ sourceEndings, ending.toList <:+ name.toList := by
    rw [matchesForm_within_iff ⟨by decide, by decide +kernel⟩ partTokens_source hparts,
      cuts_extension_iff hslash]
    simp [sourceEndings]
  have henvironment : MatchesForm (atEveryDepth ".env") (Path.below "" (names ++ [name])) ↔
      name = ".env" := by
    rw [matchesForm_within_iff ⟨by decide, by decide +kernel⟩ partTokens_environment hparts,
      Glob.cuts_literal_iff, String.toList_inj]
  have hvariant : MatchesForm (atEveryDepth ".env.*") (Path.below "" (names ++ [name])) ↔
      ".env.".toList <+: name.toList := by
    rw [matchesForm_within_iff ⟨by decide, by decide +kernel⟩ partTokens_environmentVariant hparts,
      Glob.cuts_literal_append_iff]
    constructor
    · rintro ⟨rest, heq, -⟩
      exact ⟨rest, heq.symm⟩
    · rintro ⟨rest, heq⟩
      refine ⟨rest, heq.symm, (cuts_star_iff rest).mpr fun hmem => hslash ?_⟩
      exact heq ▸ List.mem_append_right _ hmem
  rw [default_includes]
  simp only [List.mem_map, List.mem_cons, List.not_mem_nil, or_false, or_and_right, exists_or,
    exists_eq_left, exists_eq_left', hsource, henvironment, hvariant, IsSourceName]

end FlagAudit.Selection
