/-!
# Sets of code points as run lengths

A property of characters is a set of code points, and such a set is a union of a few hundred
intervals. It is written here as the lengths of its alternating gaps and runs: so many code points
outside the set, then so many inside, then so many outside again, and so on; after the last run
all code points are outside. `CodeSet.contains` reads such a list from the front.
-/

namespace FlagAudit.Text

/-- A set of numbers: the length of a gap, of a run, of the next gap, of the next run, … -/
abbrev CodeSet := List Nat

namespace CodeSet

/-- Whether `n` lies in one of the runs. -/
def contains : CodeSet → Nat → Bool
  | gap :: run :: rest, n =>
    if n < gap then false
    else if n < gap + run then true
    else contains rest (n - (gap + run))
  | _, _ => false

end CodeSet

end FlagAudit.Text
