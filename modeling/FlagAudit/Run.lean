import FlagAudit.Analysis
import FlagAudit.Config.Basic
import FlagAudit.Detect.DeadConditionals
import FlagAudit.Detect.Definitions
import FlagAudit.Scan
import FlagAudit.Source

/-!
# Running an audit

A run lists the files, looks for references and definitions in each of them, and reconciles what it
has found. A file that cannot be read or searched is left out with a warning. Several files can be
searched at the same time; then they are settled in the order in which they happen to be completed,
but the results come in the order of the files.
-/

namespace FlagAudit.Run

variable [Regex.CharNames]

/-- What has been found in one file. -/
structure Share where
  /-- Its references. -/
  references : List Reference := []
  /-- Its definitions. -/
  definitions : List Definition := []
  deriving DecidableEq, Repr

/-- Shares put together, one after the other. -/
def Share.join (shares : List Share) : Share :=
  ⟨shares.flatMap (·.references), shares.flatMap (·.definitions)⟩

/-- The text of a file; what prevents it is passed on. -/
def readSource (t : FileTree) (path : String) : Except Failure (List Char) :=
  (t.readText path).mapError .bare

/-- The references in a file. -/
def referencesIn (t : FileTree) (path : String) (patterns prefixes : List String) :
    Except Failure (List Reference) := do
  Detect.references (← readSource t path) patterns prefixes path

/-- The definitions in a file. -/
def definitionsIn (t : FileTree) (path : String) (prefixes : List String) :
    Except Failure (List Definition) := do
  return Detect.definitions (← readSource t path) prefixes path

/-- References and definitions of a file. -/
def search (t : FileTree) (config : Config) (path : String) : Except Failure Share := do
  let content ← readSource t path
  let references ← Detect.references content config.patterns config.prefixes path
  return ⟨references, Detect.definitions content config.prefixes path⟩

/-- Reports a message. -/
def report (level : Level) (text : String) : Reporting Unit :=
  modify (· ++ [⟨level, text⟩])

/-- Settles the search of one file: a failure that concerns the file only becomes a warning, and
nothing comes of the file. -/
def settle (t : FileTree) (config : Config) (path : String) : Audit (Option Share) :=
  match search t config path with
  | .ok share => return some share
  | .error e => do
    if !e.concernsFile then throw e
    report .warning ("Failed to analyze file: " ++ path ++ " (" ++ e.message ++ ")")
    return none

/-- Settles the searches of the files with some indices, one after the other. What comes of a file is
put down under its index. -/
def settleAll (t : FileTree) (config : Config) (files : List String) :
    List Nat → Audit (List (Nat × Share))
  | [] => return []
  | i :: rest => do
    match files[i]? with
    | none => settleAll t config files rest
    | some path =>
      let share? ← settle t config path
      let others ← settleAll t config files rest
      return (share?.map (i, ·)).toList ++ others

/-- The shares that have been put down, in the order of their indices. -/
def inFileOrder (settled : List (Nat × Share)) : List Share :=
  (settled.mergeSort fun a b => decide (a.1 ≤ b.1)).map (·.2)

/-- The order of completion in which all searches are done before the first one is settled, and the
one that was begun last is settled first. -/
def lastFirst (files : List String) : List Nat := (List.range files.length).reverse

/-- The order in which searches are settled: that of their completion if there are several workers
and several files, and otherwise that of the files. -/
def settlingOrder (workers : Int) (completion : List Nat) (files : List String) : List Nat :=
  if 1 < workers && 1 < files.length then completion else List.range files.length

/-- References and definitions of some files, in the order of the files. -/
def collect (t : FileTree) (config : Config) (workers : Int) (completion : List Nat)
    (files : List String) : Audit Share := do
  return .join (inFileOrder (← settleAll t config files (settlingOrder workers completion files)))

/-- The dead conditionals of a file. If it cannot be read, it has none. -/
def deadConditionalsIn (t : FileTree) (path : String) : Reporting (List DeadConditional) :=
  match t.readText path with
  | .ok content => return Detect.deadConditionals content path
  | .error c => do
    report .debug ("Skipping dead-conditional pass for " ++ path ++ ": " ++ c.text)
    return []

/-- What references and definitions amount to, with the dead conditionals of some files. -/
def analyze (t : FileTree) (files : List String) (references : List Reference)
    (definitions : List Definition) : Reporting Findings := do
  let dead ← files.mapM (deadConditionalsIn t)
  return Analysis.reconcile references definitions dead.flatten

/-- A cause that nothing accounts for is an internal failure of the run. -/
def asInternal : Failure → Failure
  | .bare c => .internal ("Internal error during analysis: " ++ c.text) c
  | e => e

/-- The steps of a run. -/
def steps (t : FileTree) (config : Config) (workers : Int) (completion : List String → List Nat)
    (root : String) : Audit Findings := do
  report .debug ("Scanning files in: " ++ root)
  report .debug ("Include patterns: " ++ ", ".intercalate config.includes)
  report .debug ("Exclude patterns: " ++ ", ".intercalate config.excludes)
  let files ← Scan.files t root config.includes config.excludes
  report .debug ("Found " ++ toString files.length ++ " files to analyze")
  let share ← collect t config workers (completion files) files
  analyze t files share.references share.definitions

/-- A run. `completion` says for the files in which order their searches are completed. -/
def run (t : FileTree) (config : Config) (workers : Int) (completion : List String → List Nat)
    (root : String) : Audit Findings :=
  tryCatch (steps t config workers completion root) fun e => throw (asInternal e)

end FlagAudit.Run
