import FlagAudit.Proofs.Config.Sources

/-!
# How loading a configuration can fail

Loading fails because of one source that it comes to: the source is not there, it cannot be read as what it
is, or what it denotes is no table. The failure then is one of the configuration, and it names the path of
the source. Some sources that cannot be read are not accounted for in this way (`Source.Escapes`): a YAML
file whose reader fails in a way of its own, a text in JSON or TOML with values that are nested too deeply, and
a TOML manifest that is no text, has a number that is too long, or has something under the name of its tools
that is no table. Their causes are passed on as they are (`load_outcome`), whatever reader of YAML there is
and however deeply values may be nested.
-/

namespace FlagAudit

namespace FileTree

variable {t : FileTree} {path : String}

theorem hasNode_of_readBytes {bytes : List UInt8} (h : t.readBytes path = .ok bytes) :
    t.hasNode path = true := by
  rw [readBytes] at h
  rw [hasNode]
  cases hfind : t.find path with
  | ok node => rfl
  | error c =>
    rw [hfind] at h
    cases h

theorem hasNode_of_readText {text : List Char} (h : t.readText path = .ok text) :
    t.hasNode path = true := by
  rw [readText] at h
  cases hbytes : t.readBytes path with
  | ok bytes => exact hasNode_of_readBytes hbytes
  | error c =>
    rw [hbytes] at h
    cases h

end FileTree

namespace Config

variable {t : FileTree} {r : Request} {s : Source} {e : Failure} {path : String}

/-- What is made of a result does not change how it fails. -/
theorem map_error_iff {α β : Type} {x : Except Failure α} {f : α → β} :
    x.map f = .error e ↔ x = .error e := by
  cases x <;> simp [Except.map]

/-! ### What is accounted for -/

theorem readFailure_of_isReadCause {c : Cause} (h : isReadCause c = true) (path : String) :
    readFailure path c = .configuration
      ("Failed to read configuration file: " ++ path ++ " (" ++ c.tag ++ ")") path c := by
  rw [readFailure, if_pos h]

theorem readFailure_of_not_isReadCause {c : Cause} (h : isReadCause c = false) (path : String) :
    readFailure path c = .bare c := by
  rw [readFailure, h]
  rfl

/-- What is accounted for. -/
theorem isReadCause_iff {c : Cause} :
    isReadCause c = true ↔ c.IsSystemError ∨ c.IsValueError ∨ c = .badYaml := by
  cases c <;> simp [isReadCause, Cause.IsSystemError, Cause.IsValueError]

/-- What keeps a file from being read is accounted for. -/
theorem isReadCause_of_cause {c : Cause} (h : c.IsSystemError ∨ c.IsValueError) :
    isReadCause c = true :=
  isReadCause_iff.mpr (h.imp_right .inl)

theorem isReadCause_ofJsonError (error : Json.ReadError) : isReadCause (ofJsonError error) = true := by
  cases error <;> rfl

/-- The content of a file cannot be had, or it does not follow the notation. -/
theorem readWith_error_iff {α : Type} {parse : α → Except Cause Setting} {content : Except Cause α} :
    readWith parse content path = .error e ↔ ∃ c, e = readFailure path c ∧
      (content = .error c ∨ ∃ a, content = .ok a ∧ parse a = .error c) := by
  rw [readWith]
  cases content with
  | error c => simp [Except.bind, Except.mapError, eq_comm]
  | ok a =>
    cases hparse : parse a with
    | ok value => simp [Except.bind, Except.mapError, hparse]
    | error c => simp [Except.bind, Except.mapError, hparse, eq_comm]

/-- The tools of a manifest have to be a table. -/
theorem tomlSection_error_iff {fields : Toml.Fields} {c : Cause} :
    tomlSection fields = .error c ↔ ∃ value, fields.lookup "tool" = some value ∧
      (∀ tools, value ≠ .table tools) ∧
      c = .badAttribute ("'" ++ value.className ++ "' object has no attribute 'get'") := by
  rw [tomlSection]
  cases htool : fields.lookup "tool" with
  | none => simp
  | some value =>
    cases value with
    | table tools =>
      simp only [Option.getD_some]
      split <;> simp
    | _ => simp [eq_comm]

/-- What is found amounts to no configuration if it is a value other than a table. -/
theorem configOf_error_iff {raw : Setting} :
    configOf (some (raw, path)) = .error e ↔ raw ≠ .nothing ∧ (∀ fields, raw ≠ .table fields) ∧
      e = .configuration "Configuration must be an object" path none := by
  cases raw <;> simp [configOf, ofSetting, eq_comm]

section

variable [Readers]

/-! ### The source that decides -/

/-- Loading comes to a source if the sources before it give nothing. -/
def Consults (t : FileTree) (r : Request) (s : Source) : Prop :=
  ∃ before after, sources t r = before ++ s :: after ∧ ∀ b ∈ before, b.give t = .ok none

/-- The first source decides that gives something or fails. -/
theorem firstOf_eq_iff {l : List Source} {result : Except Failure (Option (Setting × String))}
    (h : result ≠ .ok none) :
    firstOf t l = result ↔ ∃ s before after, l = before ++ s :: after ∧
      (∀ b ∈ before, b.give t = .ok none) ∧ s.give t = result := by
  induction l with
  | nil =>
    constructor
    · intro hnil
      exact absurd hnil.symm h
    · rintro ⟨s, before, after, heq, -⟩
      simp at heq
  | cons s rest ih =>
    -- The first source is passed over exactly if it gives nothing; otherwise no source behind it counts.
    by_cases hs : s.give t = .ok none
    · have hskip : firstOf t (s :: rest) = firstOf t rest := by
        rw [firstOf_cons, hs]
        rfl
      rw [hskip, ih]
      constructor
      · rintro ⟨s', before, after, rfl, hbefore, hgive⟩
        exact ⟨s', s :: before, after, rfl, List.forall_mem_cons.mpr ⟨hs, hbefore⟩, hgive⟩
      · rintro ⟨s', before, after, heq, hbefore, hgive⟩
        cases before with
        | nil =>
          obtain ⟨rfl, rfl⟩ := List.cons.inj heq
          exact absurd (hgive.symm.trans hs) h
        | cons b before =>
          obtain ⟨rfl, rfl⟩ := List.cons.inj heq
          exact ⟨s', before, after, rfl, (List.forall_mem_cons.mp hbefore).2, hgive⟩
    · have hstop : firstOf t (s :: rest) = s.give t := by
        rw [firstOf]
        split
        · next hnone => exact absurd hnone hs
        · rfl
      rw [hstop]
      constructor
      · intro hgive
        exact ⟨s, [], rest, rfl, List.forall_mem_nil _, hgive⟩
      · rintro ⟨s', before, after, heq, hbefore, hgive⟩
        cases before with
        | nil =>
          obtain ⟨rfl, rfl⟩ := List.cons.inj heq
          exact hgive
        | cons b before =>
          obtain ⟨rfl, rfl⟩ := List.cons.inj heq
          exact absurd (hbefore s List.mem_cons_self) hs

/-- What a source amounts to if it decides. -/
def Source.settle (t : FileTree) (s : Source) : Except Failure Config := (s.give t).bind configOf

/-- Loading fails exactly as a source does that it comes to. -/
theorem load_eq_error_iff :
    load t r = .error e ↔ ∃ s, Consults t r s ∧ s.settle t = .error e := by
  rw [load_eq_firstOf, map_error_iff]
  constructor
  · intro h
    have hgiven : firstOf t (sources t r) ≠ .ok none := by
      intro hnone
      rw [hnone] at h
      cases h
    obtain ⟨s, before, after, hsources, hbefore, hgive⟩ := (firstOf_eq_iff hgiven).mp rfl
    refine ⟨s, ⟨before, after, hsources, hbefore⟩, ?_⟩
    rw [Source.settle, hgive, h]
  · rintro ⟨s, ⟨before, after, hsources, hbefore⟩, hsettle⟩
    have hgiven : s.give t ≠ .ok none := by
      intro hnone
      rw [Source.settle, hnone] at hsettle
      cases hsettle
    rw [(firstOf_eq_iff hgiven).mpr ⟨s, before, after, hsources, hbefore, rfl⟩]
    exact hsettle

/-! ### What can be wrong with a source -/

/-- Something is wrong with a source. -/
inductive Source.AtFault (t : FileTree) (s : Source) : Prop where
  /-- It is not there. -/
  | missing (h : t.hasNode s.path = false)
  /-- It cannot be read as what it is. -/
  | unreadable {e : Failure} (h : t.hasNode s.path = true) (hread : s.read t = .error e)
  /-- What it denotes is no table. -/
  | noTable {raw : Setting} (h : t.hasNode s.path = true) (hread : s.read t = .ok (some raw))
      (hraw : raw ≠ .nothing) (htable : ∀ fields, raw ≠ .table fields)

/-- A source from which a cause is passed on as it is. -/
inductive Source.Escapes (t : FileTree) : Source → Cause → Prop where
  /-- Reading a YAML file fails otherwise than by the file system, a bad value or a text that does not follow
  the notation. -/
  | yaml {path : String} {bytes : List UInt8} {cause : Cause}
      (hkind : notationOf? (endingOf path) = some .yaml) (hbytes : t.readBytes path = .ok bytes)
      (hread : Readers.yaml bytes = .error cause)
      (hcause : ¬ (cause.IsSystemError ∨ cause.IsValueError ∨ cause = .badYaml)) :
      Escapes t (.file path) cause
  /-- The values of a JSON file are nested too deeply. -/
  | deepFile {path : String} {text : List Char} (hkind : notationOf? (endingOf path) = some .json)
      (htext : t.readText path = .ok text) (hdeep : Readers.isDeepJson text = true) :
      Escapes t (.file path) .tooDeep
  /-- The values of a JSON manifest are nested too deeply. -/
  | deepPackage {path : String} {text : List Char} (htext : t.readText path = .ok text)
      (hdeep : Readers.isDeepJson text = true) : Escapes t (.package path) .tooDeep
  /-- The bytes of a TOML manifest are no text. -/
  | noText {path : String} {bytes : List UInt8} (hbytes : t.readBytes path = .ok bytes)
      (htext : Text.Utf8.decode bytes = none) : Escapes t (.project path) .notUtf8
  /-- The values of a TOML manifest are nested too deeply. -/
  | deepProject {path : String} {bytes : List UInt8} {text : List Char}
      (hbytes : t.readBytes path = .ok bytes) (htext : Text.Utf8.decode bytes = some text)
      (hdeep : Readers.isDeepToml text = true) : Escapes t (.project path) .tooDeep
  /-- A TOML manifest has a whole number with too many digits. -/
  | tooManyDigits {path : String} {bytes : List UInt8} {text : List Char} {count : Nat}
      (hbytes : t.readBytes path = .ok bytes) (htext : Text.Utf8.decode bytes = some text)
      (hflat : Readers.isDeepToml text = false) (hread : Toml.read text = .error (.tooManyDigits count)) :
      Escapes t (.project path) (.tooManyDigits count)
  /-- What a TOML manifest has under the name of its tools is no table. -/
  | noTools {path : String} {bytes : List UInt8} {text : List Char} {fields : Toml.Fields}
      {value : Toml} (hbytes : t.readBytes path = .ok bytes)
      (htext : Text.Utf8.decode bytes = some text) (hflat : Readers.isDeepToml text = false)
      (hread : Toml.read text = .ok fields) (htools : fields.lookup "tool" = some value)
      (hvalue : ∀ tools, value ≠ .table tools) :
      Escapes t (.project path)
        (.badAttribute ("'" ++ value.className ++ "' object has no attribute 'get'"))

/-- The failure to read a source: one of the configuration that names its path, or a cause that is passed
on. -/
def Source.FailsWith (t : FileTree) (s : Source) (e : Failure) : Prop :=
  (∃ message cause, e = .configuration message (some s.path) cause) ∨
    ∃ cause, e = .bare cause ∧ s.Escapes t cause

/-! ### How a source cannot be read -/

/-- A JSON text that cannot be read is accounted for, unless its values are nested too deeply. -/
theorem parseJson_error {text : List Char} {c : Cause} (h : parseJson text = .error c) :
    isReadCause c = true ∨ Readers.isDeepJson text = true ∧ c = .tooDeep := by
  rw [parseJson] at h
  split at h
  · next hdeep => exact .inr ⟨hdeep, (Except.error.inj h).symm⟩
  · cases hread : Json.read text with
    | ok json =>
      rw [hread] at h
      cases h
    | error error =>
      rw [hread] at h
      cases h
      exact .inl (isReadCause_ofJsonError error)

theorem parseYaml_error_iff {bytes : List UInt8} {c : Cause} :
    parseYaml bytes = .error c ↔ Readers.yaml bytes = .error c := by
  rw [parseYaml]
  cases Readers.yaml bytes <;> simp [bind, Except.bind, pure, Except.pure]

/-- A JSON file fails with a failure that names it, or its values are nested too deeply. -/
theorem readJson_error (h : readJson t path = .error e) :
    (∃ message cause, e = .configuration message (some path) cause) ∨
      e = .bare .tooDeep ∧ ∃ text, t.readText path = .ok text ∧ Readers.isDeepJson text = true := by
  obtain ⟨c, rfl, hc | ⟨text, htext, hc⟩⟩ := readWith_error_iff.mp h
  · have hread := isReadCause_of_cause (FileTree.cause_of_readText hc)
    exact .inl ⟨_, _, readFailure_of_isReadCause hread path⟩
  · rcases parseJson_error hc with hread | ⟨hdeep, rfl⟩
    · exact .inl ⟨_, _, readFailure_of_isReadCause hread path⟩
    · exact .inr ⟨readFailure_of_not_isReadCause rfl path, text, htext, hdeep⟩

/-- A JSON file with values that are nested too deeply fails so. -/
theorem readJson_of_deep {text : List Char} (htext : t.readText path = .ok text)
    (hdeep : Readers.isDeepJson text = true) : readJson t path = .error (.bare .tooDeep) := by
  have hparse : parseJson text = .error .tooDeep := by
    rw [parseJson, if_pos hdeep]
  exact readWith_error_iff.mpr ⟨_, (readFailure_of_not_isReadCause rfl path).symm, .inr
    ⟨text, htext, hparse⟩⟩

/-- A YAML file fails with a failure that names it, or lets a cause escape. -/
theorem readYaml_failsWith (hkind : notationOf? (endingOf path) = some .yaml)
    (h : readYaml t path = .error e) : (Source.file path).FailsWith t e := by
  obtain ⟨c, rfl, hc⟩ := readWith_error_iff.mp h
  by_cases hread : isReadCause c = true
  · exact .inl ⟨_, _, readFailure_of_isReadCause hread path⟩
  · rcases hc with hc | ⟨bytes, hbytes, hc⟩
    · exact absurd (isReadCause_of_cause (FileTree.cause_of_readBytes hc)) hread
    · refine .inr ⟨c, readFailure_of_not_isReadCause (Bool.eq_false_of_not_eq_true hread) path, ?_⟩
      exact .yaml hkind hbytes (parseYaml_error_iff.mp hc) fun hcause => hread (isReadCause_iff.mpr hcause)

theorem readFile_of_json (h : notationOf? (endingOf path) = some .json) :
    readFile t path = readJson t path := by
  -- The equation of `readFile` would be checked by comparing the end of the name letter by letter.
  delta readFile
  simp only [h]

theorem readFile_of_yaml (h : notationOf? (endingOf path) = some .yaml) :
    readFile t path = readYaml t path := by
  delta readFile
  simp only [h]

/-- A configuration file has no notation that is read here, or it is read as JSON or as YAML. -/
theorem readFile_error_cases (h : readFile t path = .error e) :
    (∃ message, e = .configuration message path none) ∨
      (notationOf? (endingOf path) = some .json ∧ readJson t path = .error e) ∨
      (notationOf? (endingOf path) = some .yaml ∧ readYaml t path = .error e) := by
  delta readFile at h
  cases hkind : notationOf? (endingOf path) with
  | none =>
    simp only [hkind] at h
    cases h
    exact .inl ⟨_, rfl⟩
  | some kind =>
    simp only [hkind] at h
    cases kind with
    | json => exact .inr (.inl ⟨rfl, h⟩)
    | yaml => exact .inr (.inr ⟨rfl, h⟩)
    | script =>
      cases h
      exact .inl ⟨_, rfl⟩

/-- A configuration file fails with a failure that names it, or lets a cause escape. -/
theorem readFile_failsWith (h : readFile t path = .error e) : (Source.file path).FailsWith t e := by
  rcases readFile_error_cases h with ⟨message, rfl⟩ | ⟨hkind, hjson⟩ | ⟨hkind, hyaml⟩
  · exact .inl ⟨_, _, rfl⟩
  · rcases readJson_error hjson with hnamed | ⟨rfl, text, htext, hdeep⟩
    · exact .inl hnamed
    · exact .inr ⟨_, rfl, .deepFile hkind htext hdeep⟩
  · exact readYaml_failsWith hkind hyaml

/-- A TOML manifest cannot be read, is no text, has values that are nested too deeply, does not follow the
notation, has a number that is too long, or has tools that are no table. -/
theorem readToml_error_iff :
    readToml t path = .error e ↔
      (∃ c, t.readBytes path = .error c ∧ e = readFailure path c) ∨
      ∃ bytes, t.readBytes path = .ok bytes ∧
        ((Text.Utf8.decode bytes = none ∧ e = .bare .notUtf8) ∨
        ∃ text, Text.Utf8.decode bytes = some text ∧
          ((Readers.isDeepToml text = true ∧ e = .bare .tooDeep) ∨
          Readers.isDeepToml text = false ∧
          ((Toml.read text = .error .malformed ∧ e = readFailure path .badToml) ∨
          (∃ count, Toml.read text = .error (.tooManyDigits count) ∧ e = .bare (.tooManyDigits count)) ∨
          ∃ fields c, Toml.read text = .ok fields ∧ tomlSection fields = .error c ∧ e = .bare c))) := by
  rw [readToml]
  cases t.readBytes path with
  | error c => simp [Except.mapError, bind, Except.bind, eq_comm (a := e)]
  | ok bytes =>
    cases hdecode : Text.Utf8.decode bytes with
    | none => simp [Except.mapError, bind, Except.bind, hdecode, eq_comm (a := e)]
    | some text =>
      cases hdeep : Readers.isDeepToml text with
      | true => simp [Except.mapError, bind, Except.bind, hdecode, hdeep, eq_comm (a := e)]
      | false =>
        cases hread : Toml.read text with
        | error error =>
          cases error <;>
            simp [Except.mapError, bind, Except.bind, hdecode, hdeep, hread, ofTomlError, eq_comm (a := e)]
        | ok fields =>
          cases hsection : tomlSection fields <;>
            simp [Except.mapError, bind, Except.bind, hdecode, hdeep, hread, hsection, eq_comm (a := e)]

/-- A TOML manifest fails with a failure that names it, or lets a cause escape. -/
theorem readToml_failsWith (h : readToml t path = .error e) : (Source.project path).FailsWith t e := by
  rcases readToml_error_iff.mp h with ⟨c, hbytes, rfl⟩ | ⟨bytes, hbytes, ⟨htext, rfl⟩ | ⟨text, htext, h⟩⟩
  · have hread : isReadCause c = true := isReadCause_of_cause (FileTree.cause_of_readBytes hbytes)
    exact .inl ⟨_, _, readFailure_of_isReadCause hread path⟩
  · exact .inr ⟨_, rfl, .noText hbytes htext⟩
  · rcases h with ⟨hdeep, rfl⟩ | ⟨hflat, ⟨-, rfl⟩ | ⟨count, hread, rfl⟩ | ⟨fields, c, hread, hsection, rfl⟩⟩
    · exact .inr ⟨_, rfl, .deepProject hbytes htext hdeep⟩
    · exact .inl ⟨_, _, readFailure_of_isReadCause rfl path⟩
    · exact .inr ⟨_, rfl, .tooManyDigits hbytes htext hflat hread⟩
    · obtain ⟨value, htools, hvalue, rfl⟩ := tomlSection_error_iff.mp hsection
      exact .inr ⟨_, rfl, .noTools hbytes htext hflat hread htools hvalue⟩

/-! ### How a source fails -/

/-- A source that cannot be read fails with a failure that names it, or lets a cause escape. -/
theorem Source.read_failsWith (h : s.read t = .error e) : s.FailsWith t e := by
  cases s with
  | file path =>
    rw [Source.read, map_error_iff] at h
    exact readFile_failsWith h
  | package path =>
    rw [Source.read, map_error_iff] at h
    rcases readJson_error h with hnamed | ⟨rfl, text, htext, hdeep⟩
    · exact .inl hnamed
    · exact .inr ⟨_, rfl, .deepPackage htext hdeep⟩
  | project path => exact readToml_failsWith h

/-- What escapes from a source is all that reading it comes to. -/
theorem Source.Escapes.read {c : Cause} (h : s.Escapes t c) :
    t.hasNode s.path = true ∧ s.read t = .error (.bare c) := by
  cases h with
  | yaml hkind hbytes hread hcause =>
    have hfailure := readFailure_of_not_isReadCause
      (Bool.eq_false_of_not_eq_true fun hc => hcause (isReadCause_iff.mp hc))
    refine ⟨FileTree.hasNode_of_readBytes hbytes, ?_⟩
    rw [Source.read, map_error_iff, readFile_of_yaml hkind]
    exact readWith_error_iff.mpr ⟨_, (hfailure _).symm, .inr ⟨_, hbytes, parseYaml_error_iff.mpr hread⟩⟩
  | deepFile hkind htext hdeep =>
    refine ⟨FileTree.hasNode_of_readText htext, ?_⟩
    rw [Source.read, map_error_iff, readFile_of_json hkind]
    exact readJson_of_deep htext hdeep
  | deepPackage htext hdeep =>
    refine ⟨FileTree.hasNode_of_readText htext, ?_⟩
    rw [Source.read, map_error_iff]
    exact readJson_of_deep htext hdeep
  | noText hbytes htext =>
    exact ⟨FileTree.hasNode_of_readBytes hbytes,
      readToml_error_iff.mpr (.inr ⟨_, hbytes, .inl ⟨htext, rfl⟩⟩)⟩
  | deepProject hbytes htext hdeep =>
    exact ⟨FileTree.hasNode_of_readBytes hbytes,
      readToml_error_iff.mpr (.inr ⟨_, hbytes, .inr ⟨_, htext, .inl ⟨hdeep, rfl⟩⟩⟩)⟩
  | tooManyDigits hbytes htext hflat hread =>
    exact ⟨FileTree.hasNode_of_readBytes hbytes,
      readToml_error_iff.mpr (.inr ⟨_, hbytes, .inr ⟨_, htext, .inr ⟨hflat, .inr (.inl ⟨_, hread, rfl⟩)⟩⟩⟩)⟩
  | noTools hbytes htext hflat hread htools hvalue =>
    have hsection := tomlSection_error_iff.mpr ⟨_, htools, hvalue, rfl⟩
    exact ⟨FileTree.hasNode_of_readBytes hbytes, readToml_error_iff.mpr (.inr ⟨_, hbytes, .inr
      ⟨_, htext, .inr ⟨hflat, .inr (.inr ⟨_, _, hread, hsection, rfl⟩)⟩⟩⟩)⟩

/-- A source fails if it is not there, if it cannot be read, or if what it denotes is no table. -/
theorem Source.settle_error_iff :
    s.settle t = .error e ↔
      (t.hasNode s.path = false ∧
        e = .configuration ("Configuration file not found: " ++ s.path) s.path none) ∨
      (t.hasNode s.path = true ∧ s.read t = .error e) ∨
      ∃ raw, t.hasNode s.path = true ∧ s.read t = .ok (some raw) ∧ raw ≠ .nothing ∧
        (∀ fields, raw ≠ .table fields) ∧
        e = .configuration "Configuration must be an object" s.path none := by
  rw [Source.settle]
  cases hnode : t.hasNode s.path with
  | false =>
    rw [Source.give, Source.isThere, hnode]
    simp [Except.bind, eq_comm]
  | true =>
    rw [give_of_isThere hnode]
    cases hread : s.read t with
    | error e' => simp [Except.map, Except.bind]
    | ok found =>
      cases found with
      | none => simp [Except.map, Except.bind, configOf]
      | some raw => simp [Except.map, Except.bind, configOf_error_iff]

/-- A source fails exactly if something is wrong with it. -/
theorem Source.settle_isError_iff : (∃ e, s.settle t = .error e) ↔ s.AtFault t := by
  constructor
  · rintro ⟨e, h⟩
    rcases Source.settle_error_iff.mp h with ⟨hnode, -⟩ | ⟨hnode, hread⟩ |
      ⟨raw, hnode, hread, hraw, htable, -⟩
    · exact .missing hnode
    · exact .unreadable hnode hread
    · exact .noTable hnode hread hraw htable
  · intro h
    cases h with
    | missing hnode => exact ⟨_, Source.settle_error_iff.mpr (.inl ⟨hnode, rfl⟩)⟩
    | unreadable hnode hread => exact ⟨_, Source.settle_error_iff.mpr (.inr (.inl ⟨hnode, hread⟩))⟩
    | noTable hnode hread hraw htable =>
      exact ⟨_, Source.settle_error_iff.mpr (.inr (.inr ⟨_, hnode, hread, hraw, htable, rfl⟩))⟩

/-- A source fails with a failure that names it, or lets a cause escape. -/
theorem Source.settle_failsWith (h : s.settle t = .error e) : s.FailsWith t e := by
  rcases Source.settle_error_iff.mp h with ⟨-, rfl⟩ | ⟨-, hread⟩ | ⟨raw, -, -, -, -, rfl⟩
  · exact .inl ⟨_, _, rfl⟩
  · exact Source.read_failsWith hread
  · exact .inl ⟨_, _, rfl⟩

theorem Source.Escapes.settle {c : Cause} (h : s.Escapes t c) : s.settle t = .error (.bare c) :=
  Source.settle_error_iff.mpr (.inr (.inl h.read))

/-! ### How loading fails -/

/-- Loading gives a configuration exactly if nothing is wrong with any source that it comes to. A failure is
one of the configuration that names such a source, unless a cause escapes from the source; and what escapes
from a source that loading comes to is what loading fails with. -/
theorem load_outcome (t : FileTree) (r : Request) :
    ((∃ config, load t r = .ok config) ↔ ∀ s, Consults t r s → ¬ s.AtFault t) ∧
    (∀ e, load t r = .error e → ∃ s, Consults t r s ∧ s.AtFault t ∧
      ((∃ message cause, e = .configuration message (some s.path) cause) ∨
        ∃ cause, e = .bare cause ∧ s.Escapes t cause)) ∧
    ∀ s cause, Consults t r s → s.Escapes t cause → load t r = .error (.bare cause) := by
  refine ⟨⟨?_, ?_⟩, ?_, ?_⟩
  · rintro ⟨config, hload⟩ s hs hfault
    obtain ⟨e, hsettle⟩ := Source.settle_isError_iff.mpr hfault
    have herror : load t r = .error e := load_eq_error_iff.mpr ⟨s, hs, hsettle⟩
    rw [hload] at herror
    cases herror
  · intro h
    cases hload : load t r with
    | ok config => exact ⟨config, rfl⟩
    | error e =>
      obtain ⟨s, hs, hsettle⟩ := load_eq_error_iff.mp hload
      exact absurd (Source.settle_isError_iff.mp ⟨e, hsettle⟩) (h s hs)
  · intro e hload
    obtain ⟨s, hs, hsettle⟩ := load_eq_error_iff.mp hload
    exact ⟨s, hs, Source.settle_isError_iff.mp ⟨e, hsettle⟩, Source.settle_failsWith hsettle⟩
  · intro s cause hs hescapes
    exact load_eq_error_iff.mpr ⟨s, hs, hescapes.settle⟩

end

/-- A source that is a script. -/
def Source.IsScript (s : Source) : Prop :=
  ∃ path, s = .file path ∧ notationOf? (endingOf path) = some .script

/-- A directory with a TOML manifest of a single byte that is no text. -/
def badManifest : FileTree where
  root := .directory [("pyproject.toml", .file [0xff])]
  cwd := "/"
  proper := rfl

/-- Also where no script is to be run, not every failure to load is one of the configuration. -/
theorem not_always_configuration :
    ¬ ∀ (t : FileTree) (r : Request), (∀ s, Consults t r s → ¬ s.IsScript) →
      (∃ config, load t r = .ok config) ∨
        ∃ message path cause, load t r = .error (.configuration message (some path) cause) := by
  intro h
  have hsources : sources badManifest {} = [.project "/pyproject.toml"] := by decide +kernel
  have hload : load badManifest {} = .error (.bare .notUtf8) := by decide +kernel
  have hscript : ∀ s, Consults badManifest {} s → ¬ s.IsScript := by
    rintro s ⟨before, after, heq, -⟩ ⟨path, rfl, -⟩
    have hmem : Source.file path ∈ sources badManifest {} := by simp [heq]
    simp [hsources] at hmem
  rcases h badManifest {} hscript with ⟨config, hok⟩ | ⟨message, path, cause, herror⟩
  · rw [hload] at hok
    cases hok
  · rw [hload] at herror
    cases herror

end Config

end FlagAudit
