import FlagAudit.Record
import FlagAudit.Text.Position
import FlagAudit.Text.Scan
import FlagAudit.Text.Search
import FlagAudit.Text.Word

/-!
# Finding dead conditionals

A branch is dead if its condition is a literal, as in `if (true)`, or a constant that has been given
a literal before, as in `const A = 1; if (A)`. The search is lexical: it also finds such a text in
comments and quotes.
-/

namespace FlagAudit.Detect

open Text (Cursor)

/-- Whether the name of a constant can start with the character. -/
def isNameStart (c : Char) : Bool := c.isUpper || c == '_'

/-- Whether the name of a constant can go on with the character. -/
def isNameChar (c : Char) : Bool := c.isUpper || c.isDigit || c == '_'

/-- The name at the start of some characters and what is behind it. The name is as long as
possible. -/
def upperName? (s : List Char) : Option (List Char × List Char) :=
  match s with
  | [] => none
  | c :: rest =>
    if isNameStart c then some (c :: rest.takeWhile isNameChar, rest.dropWhile isNameChar)
    else none

/-- The literals that hold. -/
def trueLiterals : List (List Char) := ["true", "1", "\"true\"", "'true'"].map String.toList

/-- The literals that do not hold. -/
def falseLiterals : List (List Char) := ["false", "0", "\"false\"", "'false'"].map String.toList

/-- The literals of an outcome. -/
def literals : (outcome : Bool) → List (List Char)
  | true => trueLiterals
  | false => falseLiterals

/-- The literals of an outcome that a branch can test. Two more of them do not hold. -/
def testedLiterals : (outcome : Bool) → List (List Char)
  | true => trueLiterals
  | false => falseLiterals ++ ["null", "undefined"].map String.toList

/-- A test at the start of a text: `if` and a condition in parentheses, with blanks anywhere in
between. Gives what is behind it. -/
def test? (condition : List Char → Option (List Char)) (s : List Char) : Option (List Char) := do
  let s ← Text.behind? ['i', 'f'] s
  let s ← Text.behind? ['('] (Text.trimStart s)
  let s ← condition (Text.trimStart s)
  Text.behind? [')'] (Text.trimStart s)

/-- A test of a literal at the start of a text. Gives what is behind it. -/
def literalTest? (outcome : Bool) : List Char → Option (List Char) :=
  test? fun s => (Text.oneOf? (testedLiterals outcome) s).map (·.2)

/-- The end of a statement at the start of a text, perhaps behind spaces and tabs: a semicolon, or
the end of the line. Gives what is behind it; the line feed stays. -/
def statementEnd? (s : List Char) : Option (List Char) :=
  match s.dropWhile fun c => c == ' ' || c == '\t' with
  | [] => some []
  | ';' :: rest => some rest
  | '\n' :: rest => some ('\n' :: rest)
  | ['\r'] => some []
  | '\r' :: '\n' :: rest => some ('\n' :: rest)
  | _ => none

/-- A declared constant. -/
structure Constant where
  /-- Its name. -/
  name : List Char
  /-- The literal that it is given. -/
  literal : List Char
  deriving DecidableEq, Repr

/-- The declaration of a constant of an outcome at the start of a text, and what is behind it. The
literal is the whole value: no word goes on behind it, and the statement ends there. -/
def declaration? (outcome : Bool) (s : List Char) : Option (Constant × List Char) := do
  let s ← Text.behind? "const".toList s
  if !s.head?.any Text.isBlank then none
  let (name, s) ← upperName? (Text.trimStart s)
  let s ← Text.behind? ['='] (Text.trimStart s)
  let (literal, s) ← Text.oneOf? (literals outcome) (Text.trimStart s)
  if s.head?.any Text.isWord then none
  let s ← statementEnd? s
  return (⟨name, literal⟩, s)

/-- A declaration of a constant of an outcome, up to the first test of the constant behind it. -/
def testedConstant? (outcome : Bool) (s : List Char) : Option (Constant × List Char) := do
  let (declared, s) ← declaration? outcome s
  let s ← Text.firstSome? (test? (Text.behind? declared.name)) s
  return (declared, s)

/-- What makes a conditional dead. -/
inductive Rule where
  /-- A test of a literal of an outcome. -/
  | literal (outcome : Bool)
  /-- A test of a constant that has been given a literal of an outcome. -/
  | constant (outcome : Bool)
  deriving DecidableEq, Repr

/-- The rules in the order in which they are applied. -/
def rules : List Rule := [.literal true, .literal false, .constant true, .constant false]

/-- The outcome that a rule is about. -/
def Rule.outcome : Rule → Bool
  | .literal outcome | .constant outcome => outcome

/-- Reads a dead conditional at the start of a text, as it is shown, and gives what is behind it. A
test of a literal is shown as it is written, a constant as it is declared. -/
def Rule.read? : Rule → List Char → Option (List Char × List Char)
  | .literal outcome, s => do
    let rest ← literalTest? outcome s
    return (s.take (s.length - rest.length), rest)
  | .constant outcome, s => do
    let (declared, rest) ← testedConstant? outcome s
    return ("const ".toList ++ declared.name ++ " = ".toList ++ declared.literal, rest)

/-- Reads a dead conditional at a cursor. -/
def Rule.reader (rule : Rule) : Text.Reader (List Char) := fun _ c => do
  let (shown, rest) ← rule.read? c.after
  return (c.after.length - rest.length, shown)

/-- The dead conditionals that one rule finds, in the order of their places. -/
def deadConditionalsOf (content : List Char) (file : String) (rule : Rule) :
    List DeadConditional :=
  (Text.hits rule.reader content).map fun hit =>
    let p := Text.Position.ofOffset content hit.offset
    ⟨file, p.line, p.column, String.ofList hit.value, rule.outcome⟩

/-- The dead conditionals in a text, rule by rule. -/
def deadConditionals (content : List Char) (file : String) : List DeadConditional :=
  rules.flatMap (deadConditionalsOf content file)

end FlagAudit.Detect
