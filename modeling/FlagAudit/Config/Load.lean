import FlagAudit.Config.Basic
import FlagAudit.Json.Reader
import FlagAudit.Source
import FlagAudit.Text.LetterCase
import FlagAudit.Toml.Reader

/-!
# Finding and reading the configuration

A configuration file that is named has to be there. Otherwise the first of some usual names is taken
that is there, then the manifests of packages, and then the defaults. A file that is taken decides:
if it cannot be read, nothing else is tried. YAML is read by whatever reader of it there is (`Readers`).
-/

namespace FlagAudit.Config

/-! ### Notations -/

/-- What an error in JSON amounts to. -/
def ofJsonError : Json.ReadError → Cause
  | .malformed => .badJson
  | .tooManyDigits count => .tooManyDigits count

/-- What an error in TOML amounts to. -/
def ofTomlError : Toml.ReadError → Cause
  | .malformed => .badToml
  | .tooManyDigits count => .tooManyDigits count

/-- The notation of a configuration file. -/
inductive Notation where
  /-- JSON. -/
  | json
  /-- YAML. -/
  | yaml
  /-- A script, which is not run here. -/
  | script
  deriving DecidableEq, Repr

/-- The notation that goes with the end of a file name. -/
def notationOf? (ending : String) : Option Notation :=
  if ending == ".json" then some .json
  else if ending == ".yml" || ending == ".yaml" then some .yaml
  else if ending == ".py" then some .script
  else none

/-! ### Readers -/

/-- What reading a configuration takes from its surroundings: a reader of YAML, and how far values can be
nested in the other notations. -/
class Readers where
  /-- What a file with some bytes denotes that is read as YAML. -/
  yaml : List UInt8 → Except Cause Setting
  /-- Whether the values of a JSON text are nested too deeply. -/
  isDeepJson : List Char → Bool
  /-- Whether the values of a TOML text are nested too deeply. -/
  isDeepToml : List Char → Bool

variable [Readers]

/-- What the text of a JSON file denotes. -/
def parseJson (s : List Char) : Except Cause Setting :=
  if Readers.isDeepJson s then .error .tooDeep
  else ((Json.read s).mapError ofJsonError).map Setting.ofJson

/-- What the bytes of a YAML file denote. A value that counts as empty stands for an empty table. -/
def parseYaml (bytes : List UInt8) : Except Cause Setting := do
  let value ← Readers.yaml bytes
  return if value.isEmpty then .table [] else value

/-! ### Files -/

/-- Whether a cause means that a file cannot be read as what it is. -/
def isReadCause : Cause → Bool
  | .overflow _ | .badType _ | .badAttribute _ | .badKey _ | .badIndex _ | .tooDeep
  | .badPattern => false
  | _ => true

/-- The failure to read a configuration file. -/
def readFailure (path : String) (c : Cause) : Failure :=
  if isReadCause c then
    .configuration ("Failed to read configuration file: " ++ path ++ " (" ++ c.tag ++ ")") path c
  else .bare c

/-- What the content of a file denotes in some notation. -/
def readWith {α : Type} (parse : α → Except Cause Setting) (content : Except Cause α) (path : String) :
    Except Failure Setting :=
  (content.bind parse).mapError (readFailure path)

/-- What a JSON file denotes. -/
def readJson (t : FileTree) (path : String) : Except Failure Setting :=
  readWith parseJson (t.readText path) path

/-- What a YAML file denotes. -/
def readYaml (t : FileTree) (path : String) : Except Failure Setting :=
  readWith parseYaml (t.readBytes path) path

/-- The end of the name of a file, in lower case. -/
def endingOf (path : String) : String :=
  String.ofList (Text.lowerText (Path.extension path).toList)

/-- What a configuration file denotes. -/
def readFile (t : FileTree) (path : String) : Except Failure Setting :=
  let ending := endingOf path
  match notationOf? ending with
  | some .json => readJson t path
  | some .yaml => readYaml t path
  | some .script =>
    .error (.configuration ("Failed to load Python configuration file: " ++ path ++
      " (scripts are not run)") path none)
  | none =>
    .error (.configuration ("Unsupported configuration file format: " ++
      (if ending.isEmpty then path else ending)) path none)

/-- The names that a configuration file usually has, in the order in which they are tried. -/
def usualNames : List String :=
  ["flagwatch.config.json", "flagwatch.config.yml", "flagwatch.config.yaml", ".flagwatch.yml",
    "flagwatch.config.py"]

/-! ### Manifests of packages -/

/-- The section of a JSON manifest, if it is there and not empty. -/
def jsonSection? (manifest : Setting) : Option Setting :=
  match manifest.field? "flagwatch" with
  | some value => if value.isEmpty then none else some value
  | none => none

/-- The section of a TOML manifest, if it is there and not empty. Tools have to have a table. -/
def tomlSection (manifest : Toml.Fields) : Except Cause (Option Setting) :=
  match (manifest.lookup "tool").getD (.table []) with
  | .table tools =>
    match (tools.lookup "flagwatch").map Toml.toSetting with
    | some value => .ok (if value.isEmpty then none else some value)
    | none => .ok none
  | other =>
    .error (.badAttribute ("'" ++ other.className ++ "' object has no attribute 'get'"))

/-- The section of the TOML manifest at a path. What keeps the file from being opened, and what does
not follow the notation, is a failure of the configuration; anything else is passed on. -/
def readToml (t : FileTree) (path : String) : Except Failure (Option Setting) := do
  let bytes ← (t.readBytes path).mapError (readFailure path)
  match Text.Utf8.decode bytes with
  | none => .error (.bare .notUtf8)
  | some s =>
    if Readers.isDeepToml s then .error (.bare .tooDeep)
    else
      match Toml.read s with
      | .error .malformed => .error (readFailure path .badToml)
      | .error e => .error (.bare (ofTomlError e))
      | .ok fields => (tomlSection fields).mapError .bare

/-- The section of a manifest in a directory, and where it is from. -/
def fromManifests (t : FileTree) (dir : String) : Except Failure (Option (Setting × String)) := do
  let package := Path.join dir "package.json"
  let fromPackage ←
    if t.hasNode package then pure (jsonSection? (← readJson t package)) else pure none
  match fromPackage with
  | some value => return some (value, package)
  | none =>
    let project := Path.join dir "pyproject.toml"
    if !t.hasNode project then return none
    return (← readToml t project).map (·, project)

/-! ### Loading -/

/-- The settings of the first of some names that is there in a directory. -/
def fromUsualNames (t : FileTree) (dir : String) : Except Failure (Option (Setting × String)) :=
  match (usualNames.map (Path.join dir)).find? t.hasNode with
  | some path => do return some (← readFile t path, path)
  | none => fromManifests t dir

/-- The settings of a file that is named. -/
def fromNamed (t : FileTree) (dir path : String) : Except Failure (Option (Setting × String)) :=
  let full := Path.join dir path
  if t.hasNode full then do return some (← readFile t full, full)
  else .error (.configuration ("Configuration file not found: " ++ full) full none)

/-- Where a configuration comes from and what is added to it. -/
structure Request where
  /-- The file that is named; an empty name is none. -/
  path : String := ""
  /-- The directory to look in; an empty name is the working directory. -/
  dir : String := ""
  /-- More exclude patterns. -/
  excludes : List String := []
  /-- Whether strict mode is asked for. -/
  strict : Bool := false
  deriving DecidableEq, Repr

/-- The configuration for a run. A file that denotes no value at all leaves the defaults. -/
def load (t : FileTree) (r : Request) : Except Failure Config := do
  let dir := if r.dir.isEmpty then t.cwd else r.dir
  let found ← if r.path.isEmpty then fromUsualNames t dir else fromNamed t dir r.path
  let config ← match found with
    | none | some (.nothing, _) => pure {}
    | some (raw, path) => ofSetting raw path
  return (config.withExcludes r.excludes).withStrict r.strict

end FlagAudit.Config
