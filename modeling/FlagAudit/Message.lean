import FlagAudit.Failure

/-!
# Messages on the way

While an audit goes on, it reports what it does and what it leaves out. The messages are kept in
order; a failure does not lose those that came before it.
-/

namespace FlagAudit

/-- How important a message is. -/
inductive Level where
  /-- For someone who follows every step. -/
  | debug
  /-- Something has been left out. -/
  | warning
  /-- The audit has failed. -/
  | error
  deriving DecidableEq, Repr

/-- What a level is called. -/
def Level.name : Level → String
  | .debug => "DEBUG"
  | .warning => "WARNING"
  | .error => "ERROR"

/-- A message. -/
structure Message where
  /-- How important it is. -/
  level : Level
  /-- What it says. -/
  text : String
  deriving DecidableEq, Repr

/-- A computation that reports messages. -/
abbrev Reporting := StateM (List Message)

/-- A computation that reports messages and can fail. -/
abbrev Audit := ExceptT Failure Reporting

end FlagAudit
