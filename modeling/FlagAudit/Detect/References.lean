import FlagAudit.Failure
import FlagAudit.Record
import FlagAudit.Regex.Match
import FlagAudit.Regex.Reader
import FlagAudit.Text.Occurs
import FlagAudit.Text.Position

/-!
# Finding references

Patterns say how flags are read: the first group of a pattern is the name of a flag. Each pattern is
searched for on its own, so one place can give several references. A pattern that reads environment
variables only finds names with one of the prefixes that flags have there.
-/

namespace FlagAudit.Detect

open Regex (CharNames)

/-- What the text of a pattern that reads environment variables holds. -/
def environmentMarks : List String :=
  ["process\\.env", "process.env", "os\\.environ", "os.environ", "getenv"]

/-- Whether a pattern reads environment variables, by its text. -/
def readsEnvironment (pattern : String) : Bool :=
  environmentMarks.any fun mark => Text.occursIn mark.toList pattern.toList

/-- Whether a name starts with one of some prefixes. -/
def startsWithAny (prefixes : List String) (name : List Char) : Bool :=
  prefixes.any fun p => p.toList.isPrefixOf name

theorem startsWithAny_iff {prefixes : List String} {name : List Char} :
    startsWithAny prefixes name = true ↔ ∃ p ∈ prefixes, p.toList <+: name := by
  simp only [startsWithAny, List.any_eq_true, List.isPrefixOf_iff_prefix]

/-- What a fault of a pattern amounts to. -/
def ofFault (pattern file : String) : Regex.Fault → Failure
  | .malformed _ =>
    .pattern ("Failed to parse pattern " ++ Text.quoted pattern ++ " in " ++ file ++ ": " ++
      Cause.badPattern.text) file pattern (some .badPattern)
  | .repetitionTooLarge => .bare (.overflow "the repetition number is too large")
  | .codeTooLarge => .bare (.overflow "Python int too large to convert to C int")
  | .flagConflict => .bare (.badValue "ASCII and UNICODE flags are incompatible")
  | .tooManyDigits count => .bare (.tooManyDigits count)

/-- A pattern that can be searched for: it is well formed and has a group for the name. -/
def compile [names : CharNames] (pattern file : String) : Except Failure Pattern :=
  match Regex.read names pattern.toList with
  | .error fault => .error (ofFault pattern file fault)
  | .ok p =>
    if p.groupCount < 1 then
      .error (.pattern ("Pattern " ++ Text.quoted pattern ++
        " has no capturing group for the flag name (" ++ file ++ ")") file pattern none)
    else .ok p

/-- The reference at an occurrence of a pattern, if the name is there and admitted. -/
def referenceAt (content : List Char) (file pattern : String) (admits : List Char → Bool)
    (hit : Text.Hit Regex.State) : Option Reference :=
  match hit.value.keptText? 1 with
  | none | some [] => none
  | some name =>
    if admits name then
      let p := Text.Position.ofOffset content hit.offset
      some ⟨String.ofList name, file, p.line, p.column, pattern⟩
    else none

/-- The references that one pattern finds, in the order of their places. -/
def referencesOf [CharNames] (content : List Char) (prefixes : List String) (file pattern : String) :
    Except Failure (List Reference) := do
  let p ← compile pattern file
  let admits := fun name => !readsEnvironment pattern || startsWithAny prefixes name
  return (p.occurrences content).filterMap (referenceAt content file pattern admits)

/-- The references in a text, pattern by pattern. The first pattern that cannot be used decides. -/
def references [CharNames] (content : List Char) (patterns prefixes : List String) (file : String) :
    Except Failure (List Reference) := do
  return (← patterns.mapM (referencesOf content prefixes file)).flatten

end FlagAudit.Detect
