/-!
# What an audit finds

A flag is read at a `Reference` and given a value at a `Definition`; a `DeadConditional` is a branch
whose outcome is fixed. The `Findings` of an audit say which flags are never read, which are never
defined, and which branches are dead.
-/

namespace FlagAudit

/-- A place where the value of a flag is read. -/
structure Reference where
  /-- The name of the flag. -/
  name : String
  /-- The file that it is read in. -/
  file : String
  /-- The line, from one. -/
  line : Int
  /-- The column, from one. -/
  column : Int
  /-- The pattern that found it. -/
  pattern : String
  deriving DecidableEq, Repr

/-- A place where a flag is given a value, such as a line of an environment file. -/
structure Definition where
  /-- The name of the flag. -/
  name : String
  /-- The file that it is defined in. -/
  file : String
  /-- The line, from one. -/
  line : Int
  /-- The column, from one. -/
  column : Int
  deriving DecidableEq, Repr

/-- A branch whose outcome is fixed. -/
structure DeadConditional where
  /-- The file that it is in. -/
  file : String
  /-- The line, from one. -/
  line : Int
  /-- The column, from one. -/
  column : Int
  /-- The condition, as it is shown. -/
  condition : String
  /-- Whether the condition always holds; otherwise it never does. -/
  outcome : Bool
  deriving DecidableEq, Repr

/-- Why there is no such dead conditional. -/
inductive DeadConditional.Error where
  /-- It would have both outcomes or neither. -/
  | notOneOutcome (file : String) (line : Int)
  deriving DecidableEq, Repr

/-- The wording of an error. -/
def DeadConditional.Error.message : DeadConditional.Error → String
  | .notOneOutcome file line =>
    "DeadConditional at " ++ file ++ ":" ++ toString line ++
      " must be exactly one of always_true / always_false"

/-- A dead conditional from two separate statements about its outcome, of which exactly one has to
hold. -/
def DeadConditional.ofOutcomes (file : String) (line column : Int) (condition : String)
    (alwaysTrue alwaysFalse : Bool) : Except DeadConditional.Error DeadConditional :=
  if alwaysTrue == alwaysFalse then .error (.notOneOutcome file line)
  else .ok ⟨file, line, column, condition, alwaysTrue⟩

/-- The result of an audit. -/
structure Findings where
  /-- How many different flags are read. -/
  detected : Int
  /-- The definitions of flags that are never read. -/
  unused : List Definition := []
  /-- The references to flags that are never defined. -/
  missing : List Reference := []
  /-- The branches whose outcome is fixed. -/
  dead : List DeadConditional := []
  /-- All references. -/
  references : List Reference := []
  deriving DecidableEq, Repr

namespace Findings

/-- How many branches are always taken. -/
def alwaysTrueCount (f : Findings) : Nat := f.dead.countP (·.outcome)

/-- How many branches are never taken. -/
def alwaysFalseCount (f : Findings) : Nat := f.dead.countP (!·.outcome)

/-- Whether there is anything to look into. -/
def hasIssues (f : Findings) : Bool :=
  !(f.unused.isEmpty && f.missing.isEmpty && f.dead.isEmpty)

end Findings

end FlagAudit
