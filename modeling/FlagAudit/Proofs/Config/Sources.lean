import FlagAudit.Config.Load
import FlagAudit.Proofs.Source

/-!
# Where a configuration comes from

A configuration is taken from one of few sources: the file that is named, or else the first of the usual
names that is there, or else the manifests of packages that are there, one after the other until one has a
section. Loading comes to a source if none before it gives anything, and the first source that gives
something or fails decides (`load_eq_firstOf`). What is asked for besides is added to what has been found
(`load_eq_map`).
-/

namespace FlagAudit.Config

variable {t : FileTree} {r : Request} {e : Failure}

/-! ### Sources -/

/-- A file that a configuration can be taken from. -/
inductive Source where
  /-- A configuration file, in the notation that the end of its name says. -/
  | file (path : String)
  /-- A JSON manifest, which can have a section. -/
  | package (path : String)
  /-- A TOML manifest, which can have a section. -/
  | project (path : String)
  deriving DecidableEq, Repr

namespace Source

/-- The path of a source. -/
def path : Source → String
  | .file path | .package path | .project path => path

/-- Whether there is something at the path of a source. -/
def isThere (t : FileTree) (s : Source) : Bool := t.hasNode s.path

end Source

/-- The directory in which a request looks for files. -/
def Request.directory (t : FileTree) (r : Request) : String := if r.dir.isEmpty then t.cwd else r.dir

/-- The manifests in a directory. -/
def manifests (dir : String) : List Source :=
  [.package (Path.join dir "package.json"), .project (Path.join dir "pyproject.toml")]

/-- The sources for a request, in the order in which they are tried. -/
def sources (t : FileTree) (r : Request) : List Source :=
  if r.path.isEmpty then
    match (usualNames.map (Path.join (r.directory t))).find? t.hasNode with
    | some path => [.file path]
    | none => (manifests (r.directory t)).filter (Source.isThere t)
  else [.file (Path.join (r.directory t) r.path)]

/-! ### What is added to a configuration -/

@[simp]
theorem includes_withExcludes (extra : List String) (c : Config) :
    (c.withExcludes extra).includes = c.includes := by
  rw [withExcludes]
  split <;> rfl

@[simp]
theorem strict_withExcludes (extra : List String) (c : Config) :
    (c.withExcludes extra).strict = c.strict := by
  rw [withExcludes]
  split <;> rfl

@[simp]
theorem strict_withStrict (strict : Bool) (c : Config) :
    (c.withStrict strict).strict = (strict || c.strict) := by
  cases strict <;> rfl

section

variable [Readers]

/-! ### What the sources give -/

/-- What a source denotes, if it denotes something. -/
def Source.read (t : FileTree) : Source → Except Failure (Option Setting)
  | .file path => (readFile t path).map some
  | .package path => (readJson t path).map jsonSection?
  | .project path => readToml t path

/-- What a source gives; it has to be there. -/
def Source.give (t : FileTree) (s : Source) : Except Failure (Option (Setting × String)) :=
  if s.isThere t then (s.read t).map fun found => found.map (·, s.path)
  else .error (.configuration ("Configuration file not found: " ++ s.path) s.path none)

/-- What the first source gives that gives something. -/
def firstOf (t : FileTree) : List Source → Except Failure (Option (Setting × String))
  | [] => .ok none
  | s :: rest =>
    match s.give t with
    | .ok none => firstOf t rest
    | result => result

theorem give_of_isThere {s : Source} (h : s.isThere t = true) :
    s.give t = (s.read t).map fun found => found.map (·, s.path) := by
  rw [Source.give, if_pos h]

theorem firstOf_cons (t : FileTree) (s : Source) (rest : List Source) :
    firstOf t (s :: rest) = (s.give t).bind fun found =>
      found.elim (firstOf t rest) fun given => .ok (some given) := by
  rw [firstOf]
  cases s.give t with
  | error e => rfl
  | ok found => cases found <;> rfl

/-- A configuration file gives something or fails. -/
theorem firstOf_file (path : String) :
    firstOf t [.file path] = (Source.file path).give t := by
  rw [firstOf_cons, Source.give]
  split
  · cases h : readFile t path with
    | error e => simp [Source.read, h, Except.map, Except.bind]
    | ok raw => simp [Source.read, h, Except.map, Except.bind]
  · rfl

theorem fromNamed_eq (t : FileTree) (dir path : String) :
    fromNamed t dir path = firstOf t [.file (Path.join dir path)] := by
  rw [firstOf_file, fromNamed, Source.give, Source.isThere, Source.path]
  split
  · cases h : readFile t (Path.join dir path) <;>
      simp [Source.read, h, Except.map, bind, Except.bind, pure, Except.pure]
  · rfl

theorem firstOf_project {path : String} (h : (Source.project path).isThere t = true) :
    firstOf t [.project path] = (readToml t path).map fun found => found.map (·, path) := by
  rw [firstOf_cons, give_of_isThere h, Source.read, Source.path]
  cases readToml t path with
  | error e => rfl
  | ok found => cases found <;> rfl

theorem firstOf_package {path : String} (h : (Source.package path).isThere t = true)
    (rest : List Source) :
    firstOf t (.package path :: rest) = (readJson t path).bind fun manifest =>
      (jsonSection? manifest).elim (firstOf t rest) fun found => .ok (some (found, path)) := by
  rw [firstOf_cons, give_of_isThere h, Source.read, Source.path]
  cases readJson t path with
  | error e => rfl
  | ok manifest =>
    simp only [Except.map, Except.bind]
    cases jsonSection? manifest <;> rfl

/-- The TOML manifest of a directory is tried if it is there. -/
theorem firstOf_project_filter (t : FileTree) (path : String) :
    firstOf t ([Source.project path].filter (Source.isThere t)) =
      if !t.hasNode path then .ok none
      else (readToml t path).map fun found => found.map (·, path) := by
  by_cases h : (Source.project path).isThere t = true
  · have hnode : t.hasNode path = true := h
    rw [List.filter_cons_of_pos h, List.filter_nil, firstOf_project h, hnode]
    rfl
  · have hnode : t.hasNode path = false := Bool.eq_false_of_not_eq_true h
    rw [List.filter_cons_of_neg h, List.filter_nil, hnode]
    rfl

/-- The manifests of a directory that are there are tried one after the other. -/
theorem fromManifests_eq (t : FileTree) (dir : String) :
    fromManifests t dir = firstOf t ((manifests dir).filter (Source.isThere t)) := by
  rw [fromManifests, manifests]
  by_cases h : (Source.package (Path.join dir "package.json")).isThere t = true
  · have hnode : t.hasNode (Path.join dir "package.json") = true := h
    rw [List.filter_cons_of_pos h, firstOf_package h, firstOf_project_filter, hnode]
    cases readJson t (Path.join dir "package.json") with
    | error e => rfl
    | ok manifest =>
      simp only [if_true, bind, Except.bind, pure, Except.pure]
      cases jsonSection? manifest <;> rfl
  · have hnode : t.hasNode (Path.join dir "package.json") = false := Bool.eq_false_of_not_eq_true h
    rw [List.filter_cons_of_neg h, firstOf_project_filter, hnode]
    rfl

theorem fromUsualNames_eq (t : FileTree) (dir : String) :
    fromUsualNames t dir =
      match (usualNames.map (Path.join dir)).find? t.hasNode with
      | some path => firstOf t [.file path]
      | none => firstOf t ((manifests dir).filter (Source.isThere t)) := by
  rw [fromUsualNames]
  cases hfind : (usualNames.map (Path.join dir)).find? t.hasNode with
  | none => exact fromManifests_eq t dir
  | some path =>
    have hnode : t.hasNode path = true := List.find?_some hfind
    have hthere : (Source.file path).isThere t = true := hnode
    simp only [firstOf_file, give_of_isThere hthere, Source.read, Source.path]
    cases readFile t path <;> rfl

/-! ### Loading -/

/-- The configuration that what has been found amounts to. -/
def configOf : Option (Setting × String) → Except Failure Config
  | none | some (.nothing, _) => .ok {}
  | some (raw, path) => ofSetting raw path

/-- Loading takes what the first source gives that gives something, and adds what is asked for besides. -/
theorem load_eq_firstOf (t : FileTree) (r : Request) :
    load t r = ((firstOf t (sources t r)).bind configOf).map fun config =>
      (config.withExcludes r.excludes).withStrict r.strict := by
  have hfound : (if r.path.isEmpty then fromUsualNames t (r.directory t)
      else fromNamed t (r.directory t) r.path) = firstOf t (sources t r) := by
    rw [sources]
    split
    · rw [fromUsualNames_eq]
      cases (usualNames.map (Path.join (r.directory t))).find? t.hasNode <;> rfl
    · exact fromNamed_eq t _ _
  rw [← hfound, load, ← Request.directory]
  split
  case' isTrue => generalize fromUsualNames t (r.directory t) = found
  case' isFalse => generalize fromNamed t (r.directory t) r.path = found
  all_goals
    cases found with
    | error e => rfl
    | ok found =>
      rcases found with _ | ⟨raw, path⟩
      · rfl
      · cases raw <;> rfl

/-- The exclude patterns and the strict mode that are asked for are added to the configuration that is
found without them. -/
theorem load_eq_map (t : FileTree) (r : Request) :
    load t r = (load t { r with excludes := [], strict := false }).map fun config =>
      (config.withExcludes r.excludes).withStrict r.strict := by
  have hsources : sources t { r with excludes := [], strict := false } = sources t r := rfl
  rw [load_eq_firstOf, load_eq_firstOf, hsources]
  cases (firstOf t (sources t r)).bind configOf <;> rfl

/-- Strict mode holds if it is asked for, or if the configuration that is loaded otherwise says so. -/
theorem strict_of_load {config : Config} (h : load t r = .ok config) :
    ∃ base, load t { r with strict := false } = .ok base ∧ config.strict = (r.strict || base.strict) := by
  rw [load_eq_map] at h
  rw [load_eq_map]
  cases hload : load t { r with excludes := [], strict := false } with
  | error e =>
    rw [hload] at h
    cases h
  | ok found =>
    rw [hload] at h
    cases h
    refine ⟨_, rfl, ?_⟩
    simp only [strict_withStrict, strict_withExcludes, Bool.false_or]

/-- Exclude patterns that are asked for are added to the configuration that is loaded without them. -/
theorem load_eq_map_withExcludes (t : FileTree) (r : Request) :
    load t r = (load t { r with excludes := [] }).map (withExcludes r.excludes) := by
  rw [load_eq_map t r, load_eq_map t { r with excludes := [] }]
  cases load t { r with excludes := [], strict := false } with
  | error e => rfl
  | ok config =>
    have hcomm : (config.withExcludes r.excludes).withStrict r.strict =
        (config.withStrict r.strict).withExcludes r.excludes := by
      rw [withStrict, withStrict, withExcludes, withExcludes]
      split <;> split <;> rfl
    exact congrArg Except.ok hcomm

end

end FlagAudit.Config
