import FlagAudit.Main
import FlagAudit.Proofs.Glob.Language
import FlagAudit.Proofs.Detect.Assignment
import FlagAudit.Proofs.Detect.Definitions
import FlagAudit.Proofs.FileTree.Alike
import FlagAudit.Proofs.Glob.Expression
import FlagAudit.Proofs.Glob.Match
import FlagAudit.Proofs.Path
import FlagAudit.Proofs.Scan
import FlagAudit.Proofs.Run
import FlagAudit.Proofs.Path.Relative
import FlagAudit.Proofs.Path.Parent
import FlagAudit.Proofs.Glob.Subtree
import FlagAudit.Proofs.Selection
import FlagAudit.Proofs.Scan.Pruning
import FlagAudit.Proofs.Detect.Constants
import FlagAudit.Proofs.Scan.Relocation
import FlagAudit.Proofs.Text.Overlap
import FlagAudit.Proofs.Detect.DeadConditionals
import FlagAudit.Proofs.Regex.Literal
import FlagAudit.Proofs.Detect.EnvironmentReads
import FlagAudit.Proofs.Run.Agreement
import FlagAudit.Proofs.Glob.Parts
import FlagAudit.Proofs.Glob.Depth
import FlagAudit.Proofs.Glob.Literal
import FlagAudit.Proofs.Selection.DotForm
import FlagAudit.Proofs.Scan.Defaults
import FlagAudit.Proofs.Detect.Verdict
import FlagAudit.Proofs.Message
import FlagAudit.Proofs.Run.Stages
import FlagAudit.Proofs.Source
import FlagAudit.Proofs.Run.Errors
import FlagAudit.Proofs.FileTree.Edit
import FlagAudit.Proofs.Run.Unseen
import FlagAudit.Proofs.Selection.Tails
import FlagAudit.Proofs.Config.Sources
import FlagAudit.Proofs.Config.Failures
import FlagAudit.Proofs.Config.Overlay
import FlagAudit.Proofs.Config.Files
import FlagAudit.Proofs.Config.FirstHit
import FlagAudit.Proofs.Scan.PatternLists
import FlagAudit.Proofs.Command.Arguments
import FlagAudit.Proofs.Command.Outcome
import FlagAudit.Proofs.Scan.FileRoot
import FlagAudit.Proofs.Detect.LiteralTests
import FlagAudit.Proofs.Detect.ConstantSpans
import FlagAudit.Proofs.Analysis.Reconciliation
import FlagAudit.Proofs.Detect.Signs
import FlagAudit.Proofs.Detect.References
import FlagAudit.Proofs.Detect.LineEndings
import FlagAudit.Proofs.Detect.Keywords
import FlagAudit.Proofs.Text.Decimal
import FlagAudit.Proofs.Json.Scalars
import FlagAudit.Proofs.Json.RoundTrip
import FlagAudit.Proofs.Report.Lossless
import FlagAudit.Proofs.Text.Lines
import FlagAudit.Proofs.Report.Summary
import FlagAudit.Proofs.Report.Details
import FlagAudit.Proofs.Text.Reencoding
import FlagAudit.Proofs.FileTree.Reencoded
import FlagAudit.Proofs.Run.Reencoding
import FlagAudit.Proofs.Text.Offset
