import FlagAudit.Regex.Basic

/-!
# How long a match can be

The least and the greatest number of characters that an expression can cover. An expression that is
looked for backwards has to have one width.
-/

namespace FlagAudit.Regex

/-- A range of lengths. -/
structure Width where
  /-- The least length. -/
  min : Nat
  /-- The greatest length, if there is one. -/
  max : Option Nat
  deriving DecidableEq, Repr

namespace Width

/-- Exactly one length. -/
def exactly (n : Nat) : Width := ⟨n, some n⟩

/-- The lengths of two parts, one after the other. -/
def add (a b : Width) : Width :=
  ⟨a.min + b.min, do return (← a.max) + (← b.max)⟩

/-- The lengths of one of two parts. -/
def join (a b : Width) : Width :=
  ⟨Nat.min a.min b.min, do return Nat.max (← a.max) (← b.max)⟩

/-- The lengths of a part that is repeated. -/
def times (a : Width) (min : Nat) (max : Option Nat) : Width :=
  ⟨a.min * min, if a.max = some 0 || max = some 0 then some 0 else do return (← a.max) * (← max)⟩

/-- The one length there is, if there is only one. -/
def fixed? (a : Width) : Option Nat := if a.max = some a.min then some a.min else none

end Width

/-- The width of an expression, given the widths of the groups that it refers to. -/
def width (groups : Nat → Width) : Regex → Width
  | .empty | .anchor _ | .ahead .. | .behind .. => .exactly 0
  | .single _ => .exactly 1
  | .concat a b => (width groups a).add (width groups b)
  | .either a b => (width groups a).join (width groups b)
  | .group _ a | .atomic a => width groups a
  | .repeated a min max _ => (width groups a).times min max
  | .backref n _ => groups n
  | .ifGroup _ a b => (width groups a).join (width groups b)

end FlagAudit.Regex
