import FlagAudit.Proofs.Config.Sources
import FlagAudit.Proofs.Run.Stages
import FlagAudit.Proofs.Scan.Relocation

/-!
# Scans with several lists of patterns

Each pattern speaks for itself: a list of patterns excludes what one of its patterns excludes by itself, and
includes what one of them includes. So the files that remain with more exclude patterns are those that remain
with each of the lists, although a directory that one list leaves out is not entered at all, and more include
patterns add files. How often a pattern is in a list, and where, has no bearing on it (`files_of_patternLists`).
-/

namespace FlagAudit

namespace Selection

variable {cwd root path : String} {includes includes' excludes excludes' : List String} {isDirectory : Bool}

/-! ### Each pattern by itself -/

/-- A list of patterns excludes what one of its patterns excludes by itself. -/
theorem isExcluded_iff_exists (excludes : List String) :
    isExcluded cwd root excludes isDirectory path = true ↔
      ∃ pattern ∈ excludes, isExcluded cwd root [pattern] isDirectory path = true := by
  simp only [isExcluded_eq, excludesSpelling_iff, List.mem_singleton, exists_eq_left]

/-- A file is chosen if it is not excluded, and if one of the include patterns chooses it by itself or there
is none. -/
theorem isChosen_iff_exists (includes : List String) :
    isChosen cwd root includes excludes path = true ↔
      isExcluded cwd root excludes false path = false ∧
        (includes = [] ∨ ∃ pattern ∈ includes, isChosen cwd root [pattern] [] path = true) := by
  simp only [isChosen_eq, isExcluded_eq, choosesSpelling, excludesSpelling_nil, Glob.any_anyMatches_iff,
    Bool.and_eq_true, Bool.or_eq_true, Bool.not_eq_true', List.isEmpty_iff, true_and, reduceCtorEq, false_or,
    List.mem_singleton, exists_eq_left]

/-! ### Several lists -/

/-- Two lists together exclude what one of them excludes. -/
theorem isExcluded_append :
    isExcluded cwd root (excludes ++ excludes') isDirectory path =
      (isExcluded cwd root excludes isDirectory path || isExcluded cwd root excludes' isDirectory path) := by
  rw [Bool.eq_iff_iff, Bool.or_eq_true, isExcluded_iff_exists (excludes ++ excludes'),
    isExcluded_iff_exists excludes, isExcluded_iff_exists excludes']
  simp only [List.mem_append, or_and_right, exists_or]

/-- With two lists of exclude patterns together, a file is chosen that is chosen with both. -/
theorem isChosen_excludes_append :
    isChosen cwd root includes (excludes ++ excludes') path =
      (isChosen cwd root includes excludes path && isChosen cwd root includes excludes' path) := by
  rw [isChosen, isChosen, isChosen, isExcluded_append]
  cases isExcluded cwd root excludes false path with
  | true => rfl
  | false => cases isExcluded cwd root excludes' false path <;> simp

/-- With two lists of include patterns together, a file is chosen that is chosen with one of them. -/
theorem isChosen_includes_append (hne : includes ≠ []) (hne' : includes' ≠ []) :
    isChosen cwd root (includes ++ includes') excludes path =
      (isChosen cwd root includes excludes path || isChosen cwd root includes' excludes path) := by
  rw [Bool.eq_iff_iff, Bool.or_eq_true, isChosen_iff_exists (includes ++ includes'),
    isChosen_iff_exists includes, isChosen_iff_exists includes', ← and_or_left]
  simp only [List.append_eq_nil_iff, hne, hne', and_self, false_or, List.mem_append, or_and_right,
    exists_or]

/-- Lists of the same patterns exclude the same. -/
theorem isExcluded_congr (h : ∀ pattern, pattern ∈ excludes ↔ pattern ∈ excludes') :
    isExcluded cwd root excludes isDirectory path = isExcluded cwd root excludes' isDirectory path := by
  rw [Bool.eq_iff_iff, isExcluded_iff_exists excludes, isExcluded_iff_exists excludes']
  simp only [h]

/-- Lists of the same patterns choose the same files. -/
theorem isChosen_congr (hincludes : ∀ pattern, pattern ∈ includes ↔ pattern ∈ includes')
    (hexcludes : ∀ pattern, pattern ∈ excludes ↔ pattern ∈ excludes') :
    isChosen cwd root includes excludes path = isChosen cwd root includes' excludes' path := by
  rw [Bool.eq_iff_iff, isChosen_iff_exists includes, isChosen_iff_exists includes',
    isExcluded_congr hexcludes]
  simp only [List.eq_nil_iff_forall_not_mem, hincludes]

end Selection

namespace Scan

open FileTree (Node Location isEntryName)

variable {t : FileTree} {root path : String} {includes includes' excludes excludes' : List String}
  {paths paths' : List String}

/-! ### Policies -/

variable {policy policy₁ policy₂ : Policy} {node : Node} {names : Location}

/-- With two policies at once, a file is seen that is seen with both. -/
theorem sees_and_iff
    (hpruned : ∀ path, policy.pruned path = (policy₁.pruned path || policy₂.pruned path))
    (hchosen : ∀ path, policy.chosen path = (policy₁.chosen path && policy₂.chosen path)) :
    Sees policy path node names ↔ Sees policy₁ path node names ∧ Sees policy₂ path node names := by
  constructor
  · rintro ⟨hfile, hentered, hthis⟩
    rw [hchosen, Bool.and_eq_true] at hthis
    have hboth : ∀ k, 0 < k → k < names.length →
        policy₁.pruned (Path.below path (names.take k)) = false ∧
          policy₂.pruned (Path.below path (names.take k)) = false := by
      intro k hpos hk
      have hthere := hentered k hpos hk
      rw [hpruned, Bool.or_eq_false_iff] at hthere
      exact hthere
    exact ⟨⟨hfile, fun k hpos hk => (hboth k hpos hk).1, hthis.1⟩,
      ⟨hfile, fun k hpos hk => (hboth k hpos hk).2, hthis.2⟩⟩
  · rintro ⟨⟨hfile, hentered₁, hchosen₁⟩, ⟨-, hentered₂, hchosen₂⟩⟩
    refine ⟨hfile, fun k hpos hk => ?_, ?_⟩
    · rw [hpruned, hentered₁ k hpos hk, hentered₂ k hpos hk, Bool.or_self]
    · rw [hchosen, hchosen₁, hchosen₂, Bool.and_self]

/-- With two policies of which one has to choose a file, it is seen if it is seen with one of them. -/
theorem sees_or_iff (hpruned₁ : policy₁.pruned = policy.pruned) (hpruned₂ : policy₂.pruned = policy.pruned)
    (hchosen : ∀ path, policy.chosen path = (policy₁.chosen path || policy₂.chosen path)) :
    Sees policy path node names ↔ Sees policy₁ path node names ∨ Sees policy₂ path node names := by
  constructor
  · rintro ⟨hfile, hentered, hthis⟩
    rw [hchosen, Bool.or_eq_true] at hthis
    rcases hthis with hthis | hthis
    · exact .inl ⟨hfile, hpruned₁ ▸ hentered, hthis⟩
    · exact .inr ⟨hfile, hpruned₂ ▸ hentered, hthis⟩
  · rintro (⟨hfile, hentered, hthis⟩ | ⟨hfile, hentered, hthis⟩)
    · exact ⟨hfile, hpruned₁ ▸ hentered, by rw [hchosen, hthis, Bool.true_or]⟩
    · exact ⟨hfile, hpruned₂ ▸ hentered, by rw [hchosen, hthis, Bool.or_true]⟩

/-- With two lists of exclude patterns together, a file is seen that is seen with both. -/
theorem sees_excludes_append {cwd dir : String} :
    Sees (.ofPatterns cwd dir includes (excludes ++ excludes')) path node names ↔
      Sees (.ofPatterns cwd dir includes excludes) path node names ∧
        Sees (.ofPatterns cwd dir includes excludes') path node names :=
  sees_and_iff (fun _ => Selection.isExcluded_append) fun _ => Selection.isChosen_excludes_append

/-- With two lists of include patterns together, a file is seen that is seen with one of them. -/
theorem sees_includes_append {cwd dir : String} (hne : includes ≠ []) (hne' : includes' ≠ []) :
    Sees (.ofPatterns cwd dir (includes ++ includes') excludes) path node names ↔
      Sees (.ofPatterns cwd dir includes excludes) path node names ∨
        Sees (.ofPatterns cwd dir includes' excludes) path node names :=
  sees_or_iff rfl rfl fun _ => Selection.isChosen_includes_append hne hne'

/-- Lists of the same patterns amount to the same policy. -/
theorem Policy.ofPatterns_congr (hincludes : ∀ pattern, pattern ∈ includes ↔ pattern ∈ includes')
    (hexcludes : ∀ pattern, pattern ∈ excludes ↔ pattern ∈ excludes') (cwd dir : String) :
    Policy.ofPatterns cwd dir includes excludes = Policy.ofPatterns cwd dir includes' excludes' := by
  rw [ofPatterns, ofPatterns, mk.injEq]
  exact ⟨funext fun _ => Selection.isChosen_congr hincludes hexcludes,
    funext fun _ => Selection.isExcluded_congr hexcludes⟩

/-- Scans with lists of the same patterns are the same. -/
theorem files_congr (hincludes : ∀ pattern, pattern ∈ includes ↔ pattern ∈ includes')
    (hexcludes : ∀ pattern, pattern ∈ excludes ↔ pattern ∈ excludes') :
    files t root includes excludes = files t root includes' excludes' := by
  rw [files, files]
  simp only [Policy.ofPatterns_congr hincludes hexcludes, Selection.isChosen_congr hincludes hexcludes]

/-! ### Files that are listed -/

/-- A scan succeeds and lists some files. -/
def Lists (t : FileTree) (root : String) (includes excludes paths : List String) : Prop :=
  ∃ ms, Yields (files t root includes excludes) (.ok paths) ms

theorem Lists.unique (h : Lists t root includes excludes paths)
    (h' : Lists t root includes excludes paths') : paths = paths' := by
  obtain ⟨ms, hyields⟩ := h
  obtain ⟨ms', hyields'⟩ := h'
  exact Except.ok.inj (hyields.unique hyields').1

/-- Whether a scan succeeds is a matter of its root, not of the patterns. -/
theorem exists_lists_iff (includes excludes : List String) :
    (∃ paths, Lists t root includes excludes paths) ↔ Listable t root := by
  rcases files_cases t root includes excludes with ⟨hlistable, paths, ms, hyields, -⟩ |
    ⟨hlistable, message, path, cause, hyields⟩
  · exact iff_of_true ⟨paths, ms, hyields⟩ hlistable
  · refine iff_of_false ?_ hlistable
    rintro ⟨paths, ms, hyields'⟩
    cases (hyields.unique hyields').1

/-- The directory from which patterns see what is at and below a root. -/
def viewpoint (root : String) : Node → String
  | .file _ => if (Path.parent root).isEmpty then "." else Path.parent root
  | _ => root

/-- A scan lists what is seen at and below its root, in the order of paths. -/
theorem exists_lists (h : t.find root = .ok node) (hnode : node.isFile = true ∨ node.isDirectory = true)
    (includes excludes : List String) :
    ∃ paths, Lists t root includes excludes paths ∧ paths.Pairwise (· < ·) ∧
      ∀ path, path ∈ paths ↔ ∃ names,
        Sees (.ofPatterns t.cwd (viewpoint root node) includes excludes) root node names ∧
          path = Path.below root names := by
  cases node with
  | file content =>
    refine ⟨if Selection.isChosen t.cwd (viewpoint root (.file content)) includes excludes root then [root]
      else [], ⟨[], ?_⟩, ?_, fun path => ?_⟩
    · rw [files, h]
      exact .pure _
    · split
      · exact List.pairwise_singleton _ _
      · exact List.Pairwise.nil
    · simp only [sees_file_iff, Policy.ofPatterns, and_assoc, exists_eq_left, Path.below_nil]
      split
      · next hchosen => simp [hchosen]
      · next hchosen => simp [hchosen]
  | directory entries =>
    obtain ⟨ms, hyields, -⟩ := yields_files_of_directory h includes excludes
    have hproper := FileTree.isProper_of_find h
    exact ⟨_, ⟨ms, hyields⟩, pairwise_files hproper, fun path => mem_files_iff hproper⟩
  | _ => rcases hnode with hnode | hnode <;> cases hnode

/-- Files that are seen at and below one node have different paths. -/
theorem eq_of_below_eq (hproper : node.isProper = true)
    (hnode : node.isFile = true ∨ node.isDirectory = true) {names' : Location}
    (h : Sees policy₁ root node names) (h' : Sees policy₂ root node names')
    (heq : Path.below root names = Path.below root names') : names = names' := by
  rcases hnode with hnode | hnode
  · cases node with
    | file content => rw [(sees_file_iff.mp h).1, (sees_file_iff.mp h').1]
    | _ => cases hnode
  · obtain ⟨hne, hnames⟩ := names_of_file hproper hnode h.isFile
    obtain ⟨hne', hnames'⟩ := names_of_file hproper hnode h'.isFile
    exact Path.below_injective hne hne' hnames hnames' heq

/-- What a scan lists is known by what it lists in any order. -/
theorem Lists.eq_of_mem_iff {all : List String} (h : Lists t root includes excludes paths)
    (hall : all.Pairwise (· < ·)) (hmem : ∀ path, path ∈ paths ↔ path ∈ all) : paths = all := by
  obtain ⟨node, hfind, hnode⟩ := (exists_lists_iff includes excludes).mp ⟨paths, h⟩
  obtain ⟨paths', hlists, hsorted, -⟩ := exists_lists hfind hnode includes excludes
  rw [h.unique hlists] at hmem ⊢
  exact hsorted.eq_of_mem_iff hall hmem

/-- With two lists of exclude patterns together, a scan lists the files that it lists with both. -/
theorem Lists.excludes_append {all : List String} (h : Lists t root includes excludes paths)
    (h' : Lists t root includes excludes' paths') (hall : Lists t root includes (excludes ++ excludes') all) :
    all = paths.filter (· ∈ paths') := by
  obtain ⟨node, hfind, hnode⟩ := (exists_lists_iff includes excludes).mp ⟨paths, h⟩
  obtain ⟨_, hlists, hsorted, hmem⟩ := exists_lists hfind hnode includes excludes
  obtain ⟨_, hlists', -, hmem'⟩ := exists_lists hfind hnode includes excludes'
  obtain ⟨_, hlistsAll, -, hmemAll⟩ := exists_lists hfind hnode includes (excludes ++ excludes')
  cases h.unique hlists
  cases h'.unique hlists'
  cases hall.unique hlistsAll
  refine hall.eq_of_mem_iff (hsorted.filter _) fun path => ?_
  rw [List.mem_filter, decide_eq_true_iff, hmem, hmem', hmemAll]
  simp only [sees_excludes_append]
  constructor
  · rintro ⟨names, ⟨hsees, hsees'⟩, rfl⟩
    exact ⟨⟨names, hsees, rfl⟩, ⟨names, hsees', rfl⟩⟩
  · rintro ⟨⟨names, hsees, rfl⟩, ⟨names', hsees', heq⟩⟩
    -- The two lists can leave out different directories, but it is the same file.
    cases eq_of_below_eq (FileTree.isProper_of_find hfind) hnode hsees hsees' heq
    exact ⟨names, ⟨hsees, hsees'⟩, rfl⟩

/-- With two lists of include patterns together, a scan lists the files that it lists with one of them. -/
theorem Lists.includes_append {all : List String} (hne : includes ≠ []) (hne' : includes' ≠ [])
    (h : Lists t root includes excludes paths) (h' : Lists t root includes' excludes paths')
    (hall : Lists t root (includes ++ includes') excludes all) :
    ∀ path, path ∈ all ↔ path ∈ paths ∨ path ∈ paths' := by
  obtain ⟨node, hfind, hnode⟩ := (exists_lists_iff includes excludes).mp ⟨paths, h⟩
  obtain ⟨_, hlists, -, hmem⟩ := exists_lists hfind hnode includes excludes
  obtain ⟨_, hlists', -, hmem'⟩ := exists_lists hfind hnode includes' excludes
  obtain ⟨_, hlistsAll, -, hmemAll⟩ := exists_lists hfind hnode (includes ++ includes') excludes
  cases h.unique hlists
  cases h'.unique hlists'
  cases hall.unique hlistsAll
  intro path
  rw [hmem, hmem', hmemAll, ← exists_or]
  simp only [sees_includes_append hne hne', or_and_right]

/-! ### More exclude patterns than those of a configuration -/

/-- The exclude patterns that are added to a configuration exclude what they would behind its own, however
often they are there. -/
theorem files_withExcludes (config : Config) (extra : List String) :
    files t root (config.withExcludes extra).includes (config.withExcludes extra).excludes =
      files t root config.includes (config.excludes ++ extra) := by
  rw [Config.withExcludes]
  split
  · next hempty => rw [List.isEmpty_iff.mp hempty, List.append_nil]
  · exact files_congr (fun _ => Iff.rfl) fun _ => mem_distinct

/-- What scans list with several lists of patterns, for every root:
* whether they succeed is a matter of the root alone;
* with two lists of exclude patterns together a scan lists what it lists with both, in the same order;
* with two lists of include patterns together, neither of them empty, it lists what it lists with one of them;
* with lists of the same patterns it is the same scan;
* with the configuration that is loaded when more exclude patterns are asked for, it is the scan with these
  patterns behind those of the configuration, and it lists no file that is not listed without them, however
  YAML is read. -/
theorem files_of_patternLists [Config.Readers] (t : FileTree) (root : String) :
    (∀ includes excludes, (∃ paths, Lists t root includes excludes paths) ↔ Listable t root) ∧
    (∀ includes excludes excludes' paths paths' all, Lists t root includes excludes paths →
      Lists t root includes excludes' paths' → Lists t root includes (excludes ++ excludes') all →
        all = paths.filter (· ∈ paths')) ∧
    (∀ includes includes' excludes paths paths' all, includes ≠ [] → includes' ≠ [] →
      Lists t root includes excludes paths → Lists t root includes' excludes paths' →
      Lists t root (includes ++ includes') excludes all →
        ∀ path, path ∈ all ↔ path ∈ paths ∨ path ∈ paths') ∧
    (∀ includes includes' excludes excludes', (∀ pattern, pattern ∈ includes ↔ pattern ∈ includes') →
      (∀ pattern, pattern ∈ excludes ↔ pattern ∈ excludes') →
        files t root includes excludes = files t root includes' excludes') ∧
    ∀ (t' : FileTree) (r : Config.Request) (config : Config), Config.load t' r = .ok config →
      ∃ base, Config.load t' { r with excludes := [] } = .ok base ∧ config.includes = base.includes ∧
        files t root config.includes config.excludes =
          files t root base.includes (base.excludes ++ r.excludes) ∧
        ∀ paths remaining, Lists t root base.includes base.excludes paths →
          Lists t root config.includes config.excludes remaining → remaining.Sublist paths := by
  refine ⟨exists_lists_iff, ?_, ?_, ?_, ?_⟩
  · intro includes excludes excludes' paths paths' all h h' hall
    exact h.excludes_append h' hall
  · intro includes includes' excludes paths paths' all hne hne' h h' hall
    exact h.includes_append hne hne' h' hall
  · intro includes includes' excludes excludes' hincludes hexcludes
    exact files_congr hincludes hexcludes
  · intro t' r config hload
    rw [Config.load_eq_map_withExcludes] at hload
    cases hbase : Config.load t' { r with excludes := [] } with
    | error e =>
      rw [hbase] at hload
      cases hload
    | ok base =>
      rw [hbase] at hload
      cases hload
      have hfiles : files t root (base.withExcludes r.excludes).includes
          (base.withExcludes r.excludes).excludes =
            files t root base.includes (base.excludes ++ r.excludes) :=
        files_withExcludes base r.excludes
      refine ⟨base, rfl, Config.includes_withExcludes r.excludes base, hfiles, fun paths remaining h hremaining => ?_⟩
      rw [Lists, hfiles] at hremaining
      obtain ⟨paths', h'⟩ := (exists_lists_iff base.includes r.excludes).mpr
        ((exists_lists_iff base.includes base.excludes).mp ⟨paths, h⟩)
      rw [h.excludes_append h' hremaining]
      exact List.filter_sublist

/-- A tree with a file in a directory and one beside it. -/
def nestedTree : FileTree where
  root := .directory [("src", .directory [("z.ts", .file []), ("gen", .directory [("y.ts", .file [])])])]
  cwd := "/"
  proper := by decide

/-- The theorem holds where one list leaves out a directory and the other one a file. -/
theorem files_of_two_excludes :
    ∃ paths paths' all, Lists nestedTree "src" ["**/*.ts"] ["gen"] paths ∧
      Lists nestedTree "src" ["**/*.ts"] ["**/z.ts"] paths' ∧
      Lists nestedTree "src" ["**/*.ts"] (["gen"] ++ ["**/z.ts"]) all ∧
      all = paths.filter (· ∈ paths') := by
  obtain ⟨hlists, hexcludes, -⟩ := files_of_patternLists nestedTree "src"
  have hlistable : Listable nestedTree "src" := ⟨_, rfl, .inr rfl⟩
  obtain ⟨paths, h⟩ := (hlists ["**/*.ts"] ["gen"]).mpr hlistable
  obtain ⟨paths', h'⟩ := (hlists ["**/*.ts"] ["**/z.ts"]).mpr hlistable
  obtain ⟨all, hall⟩ := (hlists ["**/*.ts"] (["gen"] ++ ["**/z.ts"])).mpr hlistable
  exact ⟨paths, paths', all, h, h', hall, hexcludes _ _ _ _ _ _ h h' hall⟩

end Scan

end FlagAudit
