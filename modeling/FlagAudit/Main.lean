import FlagAudit.Command.Basic
import FlagAudit.FileTree.Snapshot

/-!
# The program

The command runs on a snapshot of a file tree, which is the first line of its input. The report goes
to the output, and messages go to the error output. The reader of YAML and the names of characters are
those of `FlagAudit.Surroundings`; whatever is shown of the command holds with others as well.
-/

namespace FlagAudit

/-- Shows messages, a line for each of them. -/
def showMessages (messages : List Message) : IO Unit :=
  for m in messages do
    IO.eprintln (m.level.name ++ " " ++ m.text)

/-- Shows what comes of the command, and gives the exit code. -/
def showOutcome : Command.Outcome → IO UInt32
  | .done exit output messages => do
    showMessages messages
    IO.print output
    return exit.code.toUInt32
  | .misuse message => do
    IO.eprintln (Command.usage ++ "\n" ++ "flagwatch: error: " ++ message)
    return Report.Exit.failure.code.toUInt32

end FlagAudit

/-- Runs the command on the file tree that the input describes. -/
def main (arguments : List String) : IO UInt32 := do
  let stdin ← IO.getStdin
  match FlagAudit.FileTree.ofText? (← stdin.getLine) with
  | some t =>
    FlagAudit.showOutcome (FlagAudit.Command.run t FlagAudit.Run.lastFirst arguments)
  | none =>
    IO.eprintln "the input does not describe a file tree"
    return FlagAudit.Report.Exit.failure.code.toUInt32
