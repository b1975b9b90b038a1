import FlagAudit.Json.Printer
import FlagAudit.Record

/-!
# Reports

The findings of an audit for a person, with counts and a verdict and perhaps every finding, or for a
program, as JSON. A report for continuous integration has neither pictures nor colours. In strict
mode any finding is a violation of policy, which the exit code says.
-/

namespace FlagAudit.Report

/-! ### Exit codes -/

/-- How a run of the command ends. -/
inductive Exit where
  /-- The audit is done. -/
  | success
  /-- The audit is done, and strict mode does not accept what it has found. -/
  | violation
  /-- The audit has failed. -/
  | failure
  deriving DecidableEq, Repr

/-- The number of an exit code. -/
def Exit.code : Exit → Nat
  | .success => 0
  | .violation => 1
  | .failure => 2

/-- How an audit with some findings ends. -/
def exitFor (strict : Bool) (f : Findings) : Exit :=
  if strict && f.hasIssues then .violation else .success

/-! ### For a program -/

/-- A reference as JSON. -/
def ofReference (r : Reference) : Json :=
  .object [("name", .string r.name), ("file", .string r.file), ("line", .int r.line),
    ("column", .int r.column), ("pattern", .string r.pattern)]

/-- A definition as JSON. -/
def ofDefinition (d : Definition) : Json :=
  .object [("name", .string d.name), ("file", .string d.file), ("line", .int d.line),
    ("column", .int d.column)]

/-- A dead conditional as JSON. -/
def ofDeadConditional (d : DeadConditional) : Json :=
  .object [("file", .string d.file), ("line", .int d.line), ("column", .int d.column),
    ("condition", .string d.condition), ("always_true", .bool d.outcome),
    ("always_false", .bool !d.outcome)]

/-- Findings as JSON. -/
def ofFindings (f : Findings) : Json :=
  .object [("flags_detected", .int f.detected),
    ("flags_unused", .array (f.unused.map ofDefinition)),
    ("flags_missing", .array (f.missing.map ofReference)),
    ("dead_conditionals", .array (f.dead.map ofDeadConditional)),
    ("all_flags", .array (f.references.map ofReference))]

/-! ### For a person -/

/-- How a report looks. -/
structure Style where
  /-- The report is for a program. -/
  json : Bool := false
  /-- The report is for continuous integration. -/
  ci : Bool := false
  /-- The report lists every finding. -/
  verbose : Bool := false
  deriving DecidableEq, Repr

/-- A colour of a terminal. -/
inductive Colour where
  /-- All is well. -/
  | green
  /-- There is something to see. -/
  | yellow
  deriving DecidableEq, Repr

/-- What switches a terminal to a colour. -/
def Colour.start : Colour → String
  | .green => "\x1b[92m"
  | .yellow => "\x1b[93m"

/-- A text in a colour. -/
def Colour.paint (colour : Colour) (text : String) : String := colour.start ++ text ++ "\x1b[0m"

/-- A place and what stands there, as a line of the details. -/
def flagLine (name file : String) (line : Int) : String :=
  "  - " ++ name ++ " (" ++ file ++ ":" ++ toString line ++ ")"

/-- A dead conditional as a line of the details. -/
def deadLine (d : DeadConditional) : String :=
  "  - " ++ d.file ++ ":" ++ toString d.line ++
    (if d.outcome then " (always true) " else " (always false) ") ++ d.condition

/-- A heading with lines under it, unless there are no lines. -/
def listing (heading : String) (lines : List String) : List String :=
  if lines.isEmpty then [] else heading :: lines ++ [""]

/-- The lines that list every finding. -/
def details (f : Findings) : List String :=
  ["", "Details:", ""] ++
    listing "Unused flags:" (f.unused.map fun d => flagLine d.name d.file d.line) ++
    listing "Missing flags:" (f.missing.map fun r => flagLine r.name r.file r.line) ++
    listing "Dead conditionals:" (f.dead.map deadLine)

/-- A count with its wording. -/
def bullet (count : Int) (wording : String) : String := "• " ++ toString count ++ " " ++ wording

/-- A count with its wording, unless it is zero. -/
def bulletIfAny (count : Nat) (wording : String) : List String :=
  if count == 0 then [] else [bullet count wording]

/-- The counts. -/
def counts (f : Findings) : List String :=
  [bullet f.detected "flags detected"] ++
    bulletIfAny f.unused.length "flags never enabled anywhere" ++
    bulletIfAny f.missing.length "flags referenced but undefined" ++
    bulletIfAny f.alwaysTrueCount "flags always true (dead conditional)" ++
    bulletIfAny f.alwaysFalseCount "flags always false (dead conditional)"

/-- The verdict. -/
def verdict (ci : Bool) (f : Findings) : String :=
  if f.hasIssues then
    if ci then "Review recommended" else Colour.yellow.paint "Review recommended"
  else if ci then "No issues detected" else Colour.green.paint "✅ No issues detected"

/-- The report for a person. -/
def summary (ci verbose : Bool) (f : Findings) : String :=
  let heading := if ci then "Feature Flag Summary" else "🚩 Feature Flag Summary"
  "\n".intercalate
    ([heading, ""] ++ counts f ++ ["", verdict ci f] ++ (if verbose then details f else []))

/-- The text of the report, however many digits its numbers have. -/
def render (style : Style) (f : Findings) : String :=
  if style.json then Json.render .indented (ofFindings f) else summary style.ci style.verbose f

/-! ### Writing -/

/-- The numbers in the report for a person. The other counts are lengths of lists, which are never that
long. -/
def summaryNumbers (verbose : Bool) (f : Findings) : List Int :=
  f.detected :: if verbose then f.unused.map (·.line) ++ f.missing.map (·.line) ++ f.dead.map (·.line)
    else []

/-- Writes the report, unless a number in it has too many digits. -/
def write (style : Style) (f : Findings) : Except Cause String :=
  Json.unlessTooLong
    (if style.json then (ofFindings f).integers else summaryNumbers style.verbose f) (render style f)

end FlagAudit.Report
