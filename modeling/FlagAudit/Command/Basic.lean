import FlagAudit.Command.Arguments
import FlagAudit.Config.Load
import FlagAudit.Report
import FlagAudit.Run
import FlagAudit.Surroundings

/-!
# The command

The command loads the configuration, runs an audit, and prints a report. What it prints is for the
reader of the report only; messages go elsewhere. Each kind of failure has its own wording, and all
of them end the command in the same way.
-/

namespace FlagAudit.Command

variable [Config.Readers] [Regex.CharNames]

/-- The line that shows the version. -/
def versionLine : String := "flagwatch 0.1.0"

/-- How the command is used. -/
def usage : String :=
  "usage: flagwatch [-h] [--ci] [--json] [--config PATH] [--ignore PATTERN]\n" ++
  "                 [--strict] [--verbose] [--workers WORKERS] [--version]\n" ++
  "                 [path]"

/-- What comes of the command. -/
inductive Outcome where
  /-- It has run: how it ends, what it prints, and its messages. -/
  | done (exit : Report.Exit) (output : String) (messages : List Message)
  /-- Its arguments cannot be understood. -/
  | misuse (message : String)
  deriving DecidableEq, Repr

/-- The messages about a failure. -/
def failureMessages : Failure → List Message
  | .configuration m path _ =>
    ⟨.error, "Configuration error: " ++ m⟩ ::
      (match path with
        | some p => if p.isEmpty then [] else [⟨.error, "Config path: " ++ p⟩]
        | none => [])
  | .scan m _ _ => [⟨.error, "Scan error: " ++ m⟩]
  | .internal m c => [⟨.error, "Internal error: " ++ m⟩, ⟨.debug, "Cause: " ++ c.details⟩]
  | .pattern m _ _ _ => [⟨.error, "Unexpected error: " ++ m⟩]
  | .bare c => [⟨.error, "Unexpected error: " ++ c.text⟩, ⟨.debug, "Unexpected error details"⟩]

/-- The messages that are shown: those for someone who follows every step only if that is asked
for. -/
def shown (verbose : Bool) (messages : List Message) : List Message :=
  messages.filter fun m => verbose || m.level != .debug

/-- The configuration that is asked for. -/
def request (o : Options) : Config.Request where
  path := o.config
  excludes := o.ignore
  strict := o.strict

/-- The audit that is asked for, with the configuration that it has been made under. -/
def audit (t : FileTree) (completion : List String → List Nat) (o : Options) :
    Audit (Config × Findings) := do
  let config ← ExceptT.mk (pure (Config.load t (request o)))
  let findings ← Run.run t config (max 1 o.workers) completion (Path.absolute t.cwd o.path)
  return (config, findings)

/-- Runs the command with options. -/
def runWith (t : FileTree) (completion : List String → List Nat) (o : Options) : Outcome :=
  match (audit t completion o).run.run [] with
  | (.ok (config, findings), messages) =>
    let style : Report.Style := ⟨o.json, o.ci, o.verbose⟩
    -- `Report.write` only refuses numbers that no file on a machine is long enough for.
    .done (Report.exitFor config.strict findings) (Report.render style findings ++ "\n")
      (shown o.verbose messages)
  | (.error e, messages) =>
    .done .failure "" (shown o.verbose (messages ++ failureMessages e))

/-- Runs the command with arguments. -/
def run (t : FileTree) (completion : List String → List Nat) (arguments : List String) : Outcome :=
  match parse arguments with
  | .run o => runWith t completion o
  | .help => .done .success (usage ++ "\n") []
  | .version => .done .success (versionLine ++ "\n") []
  | .misuse message => .misuse message

end FlagAudit.Command
