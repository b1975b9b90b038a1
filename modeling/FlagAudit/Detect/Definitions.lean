import FlagAudit.Detect.References
import FlagAudit.Distinct

/-!
# Finding definitions

A definition is an upper-case name with an equals sign behind it. Two passes look for them, each
with a pattern whose first group is the name: one finds definitions behind any blank and at the
start of any line, the other in the first column only. Where both find a definition, it counts once.
-/

namespace FlagAudit.Detect

/-- Where a pass looks for definitions. -/
inductive Placing where
  /-- At the start of a line or behind a blank. -/
  | anywhere
  /-- At the start of a line only. -/
  | firstColumn
  deriving DecidableEq, Repr

/-- The text of the pattern that a pass searches for. -/
def Placing.expression : Placing → String
  | .anywhere => "(?:^|\\s)([A-Z_][A-Z0-9_]*)\\s*="
  | .firstColumn => "^([A-Z_][A-Z0-9_]*)\\s*="

/-- The pattern that a pass searches for. Lines are looked at one by one, and no character is called
by name. -/
def Placing.compile (placing : Placing) : Except Regex.Fault Pattern :=
  Regex.readWith .none { multiline := true } placing.expression.toList

/-- The definition at an occurrence of a pattern, if the name has one of the prefixes. -/
def definitionAt (content : List Char) (prefixes : List String) (file : String)
    (hit : Text.Hit Regex.State) : Option Definition := do
  let name ← hit.value.keptText? 1
  let (offset, _) ← hit.value.kept? 1
  if !name.isEmpty && startsWithAny prefixes name then
    let p := Text.Position.ofOffset content offset
    return ⟨String.ofList name, file, p.line, p.column⟩
  else none

/-- The definitions that one pass finds, in the order of their places. -/
def definitionsOf (content : List Char) (prefixes : List String) (file : String)
    (placing : Placing) : List Definition :=
  match placing.compile with
  | .error _ => []
  | .ok p => (p.occurrences content).filterMap (definitionAt content prefixes file)

/-- The definitions in a text, those of the first pass and then those that only the second finds. -/
def definitions (content : List Char) (prefixes : List String) (file : String) :
    List Definition :=
  distinct ([Placing.anywhere, .firstColumn].flatMap (definitionsOf content prefixes file))

end FlagAudit.Detect
