import FlagAudit.Distinct
import FlagAudit.Record

/-!
# Reconciling references and definitions

A flag that is defined but never read is unused; one that is read but never defined is missing. Only
names are compared, in whatever files they stand. Both lists are ordered by file, line and column,
and what stands at the same place keeps its order.
-/

namespace FlagAudit.Analysis

/-- Where a finding stands. -/
structure Place where
  /-- The file. -/
  file : String
  /-- The line. -/
  line : Int
  /-- The column. -/
  column : Int
  deriving DecidableEq, Repr

/-- The order of places: by file, then by line, then by column. Files are compared character by
character. -/
def Place.le (p q : Place) : Bool :=
  if p.file == q.file then
    if p.line == q.line then p.column ≤ q.column else p.line < q.line
  else p.file < q.file

/-- Where a reference stands. -/
def placeOfReference (r : Reference) : Place := ⟨r.file, r.line, r.column⟩

/-- Where a definition stands. -/
def placeOfDefinition (d : Definition) : Place := ⟨d.file, d.line, d.column⟩

/-- References in the order of their places. -/
def sortReferences (references : List Reference) : List Reference :=
  references.mergeSort fun a b => (placeOfReference a).le (placeOfReference b)

/-- Definitions in the order of their places. -/
def sortDefinitions (definitions : List Definition) : List Definition :=
  definitions.mergeSort fun a b => (placeOfDefinition a).le (placeOfDefinition b)

/-- The definitions of flags that are never read. -/
def unused (definitions : List Definition) (references : List Reference) : List Definition :=
  definitions.filter fun d => !(references.map (·.name)).contains d.name

/-- The references to flags that are never defined. -/
def missing (definitions : List Definition) (references : List Reference) : List Reference :=
  references.filter fun r => !(definitions.map (·.name)).contains r.name

/-- What references, definitions and dead conditionals amount to. -/
def reconcile (references : List Reference) (definitions : List Definition)
    (dead : List DeadConditional) : Findings :=
  let references := sortReferences references
  let definitions := sortDefinitions definitions
  { detected := (distinct (references.map (·.name))).length
    unused := unused definitions references
    missing := missing definitions references
    dead := dead
    references := references }

end FlagAudit.Analysis
