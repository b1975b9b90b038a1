import FlagAudit.Proofs.Config.Files

/-!
# The first file that is there decides

Loading depends on little of a tree. If a file is named, it depends on that file alone. Otherwise it depends
on which of the usual names are there, up to the first one, and on what is at this one; if none of them is
there and the JSON manifest has a section, it depends on that manifest. Whatever else differs between two
trees, the outcome is the same in both, also if it is a failure: nothing is tried in the place of a file that
cannot be read (`load_eq_of_same`).
-/

namespace FlagAudit

namespace FileTree

variable {t t' : FileTree} {path : String}

/-- Two trees have the same at a path: nothing, or something that reads the same. -/
structure SameAt (t t' : FileTree) (path : String) : Prop where
  /-- There is something at the path in both or in neither. -/
  hasNode : t.hasNode path = t'.hasNode path
  /-- What is there has the same bytes, or they cannot be read for the same reason. -/
  readBytes : t.readBytes path = t'.readBytes path

theorem SameAt.symm (h : SameAt t t' path) : SameAt t' t path := ⟨h.hasNode.symm, h.readBytes.symm⟩

theorem SameAt.readText (h : SameAt t t' path) : t.readText path = t'.readText path := by
  rw [FileTree.readText, FileTree.readText, h.readBytes]

end FileTree

namespace Config

open FileTree (SameAt)

variable {t t' : FileTree} {r : Request} {path : String} {value : Setting}

/-! ### Two trees -/

/-- In a directory, two trees agree on the usual files up to the first one that is there. -/
structure AgreeUpTo (t t' : FileTree) (dir name : String) : Prop where
  /-- In both trees, none of the names before this one is there. -/
  first : ∃ before after, usualNames = before ++ name :: after ∧
    ∀ n ∈ before, t.hasNode (Path.join dir n) = false ∧ t'.hasNode (Path.join dir n) = false
  /-- This one is there. -/
  isThere : t.hasNode (Path.join dir name) = true
  /-- It is the same in both. -/
  same : SameAt t t' (Path.join dir name)

theorem AgreeUpTo.symm {dir name : String} (h : AgreeUpTo t t' dir name) : AgreeUpTo t' t dir name := by
  obtain ⟨before, after, hnames, hbefore⟩ := h.first
  exact ⟨⟨before, after, hnames, fun n hn => (hbefore n hn).symm⟩, h.same.hasNode ▸ h.isThere,
    h.same.symm⟩

theorem AgreeUpTo.takes {name : String} (h : AgreeUpTo t t' (r.directory t) name) (hname : r.path = "") :
    Takes t r (Path.join (r.directory t) name) := by
  obtain ⟨before, after, hnames, hbefore⟩ := h.first
  exact .usual hname hnames (fun n hn => (hbefore n hn).1) h.isThere

section

variable [Readers]

/-! ### What is read is the same -/

theorem readFile_congr (h : SameAt t t' path) : readFile t path = readFile t' path := by
  delta readFile readJson readYaml
  simp only [h.readText, h.readBytes]

/-- The file that is taken decides, so two trees with the same file there come to the same. -/
theorem load_congr (h : Takes t r path) (h' : Takes t' r path) (hsame : SameAt t t' path) :
    load t r = load t' r := by
  rw [load_of_takes h, load_of_takes h', readFile_congr hsame]

/-- A file that is taken and cannot be read is a failure, whatever else there is. -/
theorem load_error_of_takes {e : Failure} (h : Takes t r path) (hread : readFile t path = .error e) :
    load t r = .error e := by
  rw [load_of_takes h, hread]
  rfl

/-! ### The section of a manifest -/

/-- The JSON manifest at a path is an object with a value under the name of the section, and the value does
not count as empty. -/
def HasSection (t : FileTree) (path : String) (value : Setting) : Prop :=
  ∃ text fields, t.readText path = .ok text ∧ Readers.isDeepJson text = false ∧
    Json.read text = .ok (.object fields) ∧
    (Setting.ofJson (.object fields)).field? "flagwatch" = some value ∧ value.isEmpty = false

/-- A request takes the section of the JSON manifest. -/
structure TakesSection (t : FileTree) (r : Request) (value : Setting) : Prop where
  /-- No file is named. -/
  unnamed : r.path = ""
  /-- None of the usual files is there. -/
  noFile : ∀ name ∈ usualNames, t.hasNode (Path.join (r.directory t) name) = false
  /-- The manifest has a section. -/
  hasSection : HasSection t (Path.join (r.directory t) "package.json") value

/-- The section of the JSON manifest decides. -/
theorem load_of_takesSection (h : TakesSection t r value) :
    load t r = (ofSetting value (Path.join (r.directory t) "package.json")).map r.extend := by
  obtain ⟨text, fields, htext, hflat, hread, hfield, hvalue⟩ := h.hasSection
  have hthere : (Source.package (Path.join (r.directory t) "package.json")).isThere t = true :=
    FileTree.hasNode_of_readText htext
  have hsection : (readJson t (Path.join (r.directory t) "package.json")).map jsonSection? =
      .ok (some value) := by
    rw [readJson, readWith, htext]
    simp [Except.bind, parseJson, hflat, hread, Except.mapError, Except.map, jsonSection?, hfield, hvalue]
  have hnothing : configOf (some (value, Path.join (r.directory t) "package.json")) =
      ofSetting value (Path.join (r.directory t) "package.json") := by
    cases value with
    | nothing => cases hvalue
    | _ => rfl
  rw [load_eq_firstOf, sources, if_pos (String.isEmpty_iff.mpr h.unnamed), find?_join_eq_none h.noFile,
    manifests]
  simp only
  rw [List.filter_cons_of_pos hthere, firstOf_cons, give_of_isThere hthere, Source.read, hsection]
  exact congrArg (Except.map r.extend) hnothing

/-! ### Loading from two trees -/

/-- In two trees loading from the same directory has the same outcome if no file is named and they agree on
the usual files up to the first one that is there, and then a file that cannot be read is the end; if none of
the usual files is there and they have the same JSON manifest, and it has a section; and if a file is named
that is there and the same in both. -/
theorem load_eq_of_same (t t' : FileTree) (r : Request) (hdir : r.directory t = r.directory t') :
    (∀ name, r.path = "" → AgreeUpTo t t' (r.directory t) name → load t r = load t' r ∧
      ∀ e, readFile t (Path.join (r.directory t) name) = .error e →
        load t r = .error e ∧ load t' r = .error e) ∧
    (∀ value, TakesSection t r value →
      (∀ name ∈ usualNames, t'.hasNode (Path.join (r.directory t) name) = false) →
      SameAt t t' (Path.join (r.directory t) "package.json") → load t r = load t' r) ∧
    (r.path ≠ "" → t.hasNode (Path.join (r.directory t) r.path) = true →
      SameAt t t' (Path.join (r.directory t) r.path) → load t r = load t' r) := by
  refine ⟨fun name hname hagree => ?_, fun value hsection hnone hsame => ?_,
    fun hname hthere hsame => ?_⟩
  · have htakes := hagree.takes hname
    have htakes' : Takes t' r (Path.join (r.directory t) name) := by
      have hagree' : AgreeUpTo t' t (r.directory t') name := hdir ▸ hagree.symm
      rw [hdir]
      exact hagree'.takes hname
    have heq := load_congr htakes htakes' hagree.same
    refine ⟨heq, fun e he => ?_⟩
    have herror := load_error_of_takes htakes he
    exact ⟨herror, heq ▸ herror⟩
  · obtain ⟨text, fields, htext, hread⟩ := hsection.hasSection
    have hsection' : TakesSection t' r value :=
      ⟨hsection.unnamed, hdir ▸ hnone, text, fields, by rw [← hdir, ← hsame.readText, htext], hread⟩
    rw [load_of_takesSection hsection, load_of_takesSection hsection', hdir]
  · have htakes' : Takes t' r (Path.join (r.directory t') r.path) :=
      .named hname (hdir ▸ hsame.hasNode ▸ hthere)
    exact load_congr (.named hname hthere) (hdir ▸ htakes') hsame

end

/-- A directory with a usual file that does not follow its notation, another file, and a directory with a
JSON manifest. -/
def fewFiles : FileTree where
  root := .directory [("flagwatch.config.json", .file "\x7b".toUTF8.toList),
    ("settings.json", .file "\x7b\x7d".toUTF8.toList),
    ("app", .directory [("package.json", .file "\x7b\"flagwatch\":true\x7d".toUTF8.toList)])]
  cwd := "/"
  proper := rfl

/-- The same directory with more files: a usual one that comes later, and manifests. -/
def moreFiles : FileTree where
  root := .directory [("flagwatch.config.json", .file "\x7b".toUTF8.toList),
    ("flagwatch.config.yml", .file "strict: true".toUTF8.toList),
    ("settings.json", .file "\x7b\x7d".toUTF8.toList),
    ("package.json", .special),
    ("app", .directory [("pyproject.toml", .file [0xff]),
      ("package.json", .file "\x7b\"flagwatch\":true\x7d".toUTF8.toList)])]
  cwd := "/"
  proper := rfl

theorem agreeUpTo_moreFiles : AgreeUpTo fewFiles moreFiles "/" "flagwatch.config.json" where
  first := ⟨[], usualNames.tail, rfl, List.forall_mem_nil _⟩
  isThere := by decide +kernel
  same := ⟨by decide +kernel, by decide +kernel⟩

theorem takesSection_fewFiles :
    TakesSection fewFiles ⟨"", "app", [], false⟩ (.flag true) where
  unnamed := rfl
  noFile := by decide +kernel
  hasSection := by
    have hread : Json.read "\x7b\"flagwatch\":true\x7d".toList =
        .ok (.object [("flagwatch", .bool true)]) := by cbv
    exact ⟨_, _, by decide +kernel, rfl, hread, rfl, rfl⟩

/-- None of the files that come later makes a difference, though the first one cannot be read. -/
theorem load_of_moreFiles :
    (AgreeUpTo fewFiles moreFiles "/" "flagwatch.config.json" ∧
      ∃ e, load fewFiles {} = .error e ∧ load moreFiles {} = .error e) ∧
    (TakesSection fewFiles ⟨"", "app", [], false⟩ (.flag true) ∧
      load fewFiles ⟨"", "app", [], false⟩ = load moreFiles ⟨"", "app", [], false⟩) ∧
    load fewFiles ⟨"settings.json", "", [], false⟩ = load moreFiles ⟨"settings.json", "", [], false⟩ := by
  have hread : Json.read "\x7b".toList = .error .malformed := by cbv
  have hbroken : readFile fewFiles "/flagwatch.config.json" =
      .error (readFailure "/flagwatch.config.json" .badJson) := by
    rw [readFile_of_json (by decide +kernel), readJson, readWith_error_iff]
    refine ⟨_, rfl, .inr ⟨"\x7b".toList, by decide +kernel, ?_⟩⟩
    rw [parseJson, hread]
    rfl
  have hfirst := (load_eq_of_same fewFiles moreFiles {} rfl).1 _ rfl agreeUpTo_moreFiles
  refine ⟨⟨agreeUpTo_moreFiles, _, hfirst.2 _ hbroken⟩, ⟨takesSection_fewFiles, ?_⟩, ?_⟩
  · exact (load_eq_of_same fewFiles moreFiles _ rfl).2.1 _ takesSection_fewFiles (by decide +kernel)
      ⟨by decide +kernel, by decide +kernel⟩
  · exact (load_eq_of_same fewFiles moreFiles _ rfl).2.2 (by decide) (by decide +kernel)
      ⟨by decide +kernel, by decide +kernel⟩

end Config

end FlagAudit
