import FlagAudit.Proofs.Config.Failures
import FlagAudit.Proofs.Config.Overlay

/-!
# What a configuration file has to denote

A request takes one configuration file at most: the one that is named, or else the first usual one that is
there. What the file denotes has to be a table. But some values never come to be checked: no value is the
same as no file, and in YAML an empty table stands for whatever counts as empty. A file with such a value
leaves the defaults; any other value that is no table is a failure that names the file (`load_of_denotes`).
-/

namespace FlagAudit.Config

variable {t : FileTree} {r : Request} {path : String} {kind : Notation} {value : Setting}

/-- A configuration with what a request asks for besides. -/
def Request.extend (r : Request) (c : Config) : Config := (c.withExcludes r.excludes).withStrict r.strict

/-- A value that leaves the defaults, though it need not be a table. -/
def LeavesDefaults : Notation → Setting → Prop
  | .json, value => value = .nothing
  | .yaml, value => value.isEmpty = true
  | .script, _ => False

/-! ### The file that is taken -/

/-- A request takes a configuration file. -/
inductive Takes (t : FileTree) (r : Request) : String → Prop where
  /-- The file that is named. -/
  | named (hname : r.path ≠ "") (hthere : t.hasNode (Path.join (r.directory t) r.path) = true) :
      Takes t r (Path.join (r.directory t) r.path)
  /-- If none is named, the first of the usual names that is there. -/
  | usual {before after : List String} {name : String} (hname : r.path = "")
      (hnames : usualNames = before ++ name :: after)
      (hbefore : ∀ n ∈ before, t.hasNode (Path.join (r.directory t) n) = false)
      (hthere : t.hasNode (Path.join (r.directory t) name) = true) :
      Takes t r (Path.join (r.directory t) name)

theorem Takes.hasNode (h : Takes t r path) : t.hasNode path = true := by
  cases h with
  | named hname hthere => exact hthere
  | usual hname hnames hbefore hthere => exact hthere

/-- If none of some files is there, the first one that is there cannot be found. -/
theorem find?_join_eq_none {dir : String} {names : List String}
    (h : ∀ n ∈ names, t.hasNode (Path.join dir n) = false) :
    (names.map (Path.join dir)).find? t.hasNode = none := by
  rw [List.find?_eq_none]
  intro p hp
  obtain ⟨n, hn, rfl⟩ := List.mem_map.mp hp
  rw [h n hn]
  exact Bool.false_ne_true

/-- The file that is taken is the only source. -/
theorem Takes.sources_eq (h : Takes t r path) : sources t r = [.file path] := by
  cases h with
  | named hname hthere =>
    rw [sources, if_neg]
    rwa [String.isEmpty_iff]
  | @usual before after name hname hnames hbefore hthere =>
    have hfind : (usualNames.map (Path.join (r.directory t))).find? t.hasNode =
        some (Path.join (r.directory t) name) := by
      rw [hnames, List.map_append, List.find?_append, find?_join_eq_none hbefore, Option.none_or,
        List.map_cons, List.find?_cons_of_pos hthere]
    rw [sources, if_pos (String.isEmpty_iff.mpr hname), hfind]

section

variable [Readers]

/-- The file that is taken decides. -/
theorem load_of_takes (h : Takes t r path) :
    load t r = ((readFile t path).bind fun raw => configOf (some (raw, path))).map r.extend := by
  have hthere : (Source.file path).isThere t = true := h.hasNode
  rw [load_eq_firstOf, h.sources_eq, firstOf_file, give_of_isThere hthere, Source.read]
  cases readFile t path <;> rfl

/-! ### What it denotes -/

/-- A configuration file can be read and denotes a value, in the notation that the end of its name says. -/
inductive Denotes (t : FileTree) (path : String) : Notation → Setting → Prop where
  /-- A JSON value. -/
  | json {text : List Char} {value : Json} (hkind : notationOf? (endingOf path) = some .json)
      (htext : t.readText path = .ok text) (hflat : Readers.isDeepJson text = false)
      (hread : Json.read text = .ok value) : Denotes t path .json (.ofJson value)
  /-- A YAML value. -/
  | yaml {bytes : List UInt8} {value : Setting} (hkind : notationOf? (endingOf path) = some .yaml)
      (hbytes : t.readBytes path = .ok bytes) (hread : Readers.yaml bytes = .ok value) :
      Denotes t path .yaml value

/-- What a file denotes comes to a configuration, unless it leaves the defaults. -/
theorem configOf_of_denotes (h : Denotes t path kind value) :
    (LeavesDefaults kind value →
      ((readFile t path).bind fun raw => configOf (some (raw, path))) = .ok {}) ∧
    (¬ LeavesDefaults kind value →
      ((readFile t path).bind fun raw => configOf (some (raw, path))) = ofSetting value path) := by
  cases h with
  | @json text json hkind htext hflat hread =>
    have hfile : readFile t path = .ok (.ofJson json) := by
      rw [readFile_of_json hkind, readJson, readWith, htext]
      simp [Except.bind, parseJson, hflat, hread, Except.mapError, Except.map]
    rw [hfile]
    refine ⟨fun hnothing => ?_, fun hvalue => ?_⟩
    · have heq : Setting.ofJson json = .nothing := hnothing
      simp only [Except.bind, heq, configOf]
    · cases hsetting : Setting.ofJson json with
      | nothing => exact absurd hsetting hvalue
      | _ => rfl
  | @yaml bytes _ hkind hbytes hread =>
    have hfile : readFile t path = .ok (if value.isEmpty then .table [] else value) := by
      rw [readFile_of_yaml hkind, readYaml, readWith, hbytes]
      simp [Except.bind, parseYaml, hread, Except.mapError, bind, pure, Except.pure]
    rw [hfile]
    refine ⟨fun hempty => ?_, fun hfull => ?_⟩
    · have hempty : value.isEmpty = true := hempty
      rw [hempty]
      rfl
    · have hfull : value.isEmpty = false := Bool.eq_false_of_not_eq_true hfull
      rw [hfull]
      cases value with
      | nothing => cases hfull
      | _ => rfl

/-- A file that is taken and can be read leaves the defaults, or its value is a table and comes to a
configuration, or loading fails with a failure that names the file. -/
theorem load_of_denotes (htakes : Takes t r path) (hdenotes : Denotes t path kind value) :
    (LeavesDefaults kind value → load t r = .ok (r.extend {})) ∧
    (¬ LeavesDefaults kind value → load t r = (ofSetting value path).map r.extend) ∧
    ∀ e, load t r = .error e ↔ ¬ LeavesDefaults kind value ∧ (∀ fields, value ≠ .table fields) ∧
      e = .configuration "Configuration must be an object" path none := by
  obtain ⟨hdefaults, hvalue⟩ := configOf_of_denotes hdenotes
  rw [load_of_takes htakes]
  refine ⟨fun h => by rw [hdefaults h]; rfl, fun h => by rw [hvalue h], fun e => ?_⟩
  rw [map_error_iff]
  by_cases h : LeavesDefaults kind value
  · simp [hdefaults h, h]
  · rw [hvalue h, ofSetting_error_iff]
    simp [h]

end

/-- A directory with a JSON file that denotes no value and one that denotes an empty list. -/
def oddFiles : FileTree where
  root := .directory [("flagwatch.config.json", .file "null".toUTF8.toList),
    ("settings.json", .file "[]".toUTF8.toList)]
  cwd := "/"
  proper := rfl

/-- An empty list in JSON does not leave the defaults. -/
theorem load_of_emptyList :
    Takes oddFiles ⟨"settings.json", "", [], false⟩ "/settings.json" ∧
      Denotes oddFiles "/settings.json" .json (.list []) ∧
      load oddFiles ⟨"settings.json", "", [], false⟩ =
        .error (.configuration "Configuration must be an object" "/settings.json" none) := by
  have htakes : Takes oddFiles ⟨"settings.json", "", [], false⟩ "/settings.json" :=
    .named (by decide) (by decide +kernel)
  have hread : Json.read "[]".toList = .ok (.array []) := by cbv
  have hdenotes : Denotes oddFiles "/settings.json" .json (.list []) :=
    .json (by decide +kernel) (by decide +kernel) rfl hread
  refine ⟨htakes, hdenotes, ((load_of_denotes htakes hdenotes).2.2 _).mpr ⟨?_, ?_, rfl⟩⟩
  · exact fun h => Setting.noConfusion h
  · exact fun _ h => Setting.noConfusion h

/-- Not every file has to denote a table, even if no value counts as an empty YAML document. -/
theorem not_always_table :
    ¬ ∀ (t : FileTree) (r : Request) (path : String) (kind : Notation) (value : Setting),
      Takes t r path → Denotes t path kind value → ¬ (kind = .yaml ∧ value = .nothing) →
        (∀ fields, value ≠ .table fields) →
          ∃ message cause, load t r = .error (.configuration message (some path) cause) := by
  intro h
  have hnames : usualNames = [] ++ "flagwatch.config.json" :: usualNames.tail := rfl
  have htakes : Takes oddFiles {} "/flagwatch.config.json" :=
    .usual rfl hnames (List.forall_mem_nil _) (by decide +kernel)
  have hread : Json.read "null".toList = .ok .null := by cbv
  have hdenotes : Denotes oddFiles "/flagwatch.config.json" .json .nothing :=
    .json (by decide +kernel) (by decide +kernel) rfl hread
  obtain ⟨message, cause, hload⟩ := h oddFiles {} _ _ _ htakes hdenotes
    (fun h => Notation.noConfusion h.1) (fun _ h => Setting.noConfusion h)
  have hok : load oddFiles {} = .ok {} := by decide +kernel
  rw [hok] at hload
  cases hload

end FlagAudit.Config
