import FlagAudit.Glob.Basic
import FlagAudit.Regex.Match
import FlagAudit.Regex.Reader

/-!
# Matching a path against a glob

A pattern matches a path if its regular expression occurs at the start of the path. Before that,
each backslash of the path becomes a slash.
-/

namespace FlagAudit.Glob

/-- The regular expression that is looked for. It calls no character by name. -/
def compile (pattern : String) : Except Regex.Fault Pattern :=
  Regex.read .none (expression pattern.toList)

/-- A path with slashes in the place of its backslashes. -/
def slashed (path : String) : List Char :=
  path.toList.map fun c => if c == '\\' then '/' else c

/-- Whether a pattern matches a path. -/
def matchesPath (pattern path : String) : Bool :=
  match compile pattern with
  | .ok p => p.matchesStart (slashed path)
  | .error _ => false

/-- Whether one of some patterns matches a path. -/
def anyMatches (patterns : List String) (path : String) : Bool :=
  patterns.any (matchesPath · path)

end FlagAudit.Glob
