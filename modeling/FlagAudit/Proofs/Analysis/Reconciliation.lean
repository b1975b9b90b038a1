import Mathlib.Data.Finset.Card
import FlagAudit.Proofs.Analysis.Order
import FlagAudit.Proofs.Message

/-!
# What reconciling gives

All references come in the order of their places; missing are those whose names are not defined, and
unused are the definitions, in the same order, whose names are not read. The numbers follow from the sets
of the names alone, and the order in which references and definitions come decides nothing but the order
of what stands at the same place (`analyze_exact`).
-/

namespace FlagAudit.Analysis

variable {references references' : List Reference} {definitions definitions' : List Definition}
  {dead : List DeadConditional}

/-- The names that are read. -/
def readNames (references : List Reference) : Finset String := (references.map (·.name)).toFinset

/-- The names that are defined. -/
def definedNames (definitions : List Definition) : Finset String :=
  (definitions.map (·.name)).toFinset

/-- What the findings are for some references and definitions, if no file is looked at. What is sorted is
compared by its file, then by its line and then by its column. -/
structure Reconciles (references : List Reference) (definitions : List Definition) (f : Findings) :
    Prop where
  /-- All references, sorted by file, line and column and in no other way. -/
  sorted : ∀ l, StablySorted (fun r : Reference => ⟨r.file, r.line, r.column⟩) references l ↔ l = f.references
  /-- The references whose names no definition has. -/
  missing : f.missing = f.references.filter fun r => ∀ d ∈ definitions, d.name ≠ r.name
  /-- The definitions, sorted in the same way, whose names no reference has. -/
  unused : ∃ ordered,
    (∀ l, StablySorted (fun d : Definition => ⟨d.file, d.line, d.column⟩) definitions l ↔ l = ordered) ∧
    f.unused = ordered.filter fun d => ∀ r ∈ references, r.name ≠ d.name
  /-- No name is both missing and unused. -/
  apart : ∀ r ∈ f.missing, ∀ d ∈ f.unused, r.name ≠ d.name
  /-- The number of names that are read. -/
  detected : f.detected = (readNames references).card
  /-- They are the missing ones and those that are defined as well. -/
  detected_eq_add : f.detected =
    (readNames f.missing).card + (readNames references ∩ definedNames definitions).card
  /-- There is nothing to look into if the names that are read are those that are defined. -/
  hasIssues : f.hasIssues = false ↔ readNames references = definedNames definitions

/-- Findings that differ only in the order of what stands at the same place, which is a file, a line and a
column. -/
structure AlikeFindings (f f' : Findings) : Prop where
  /-- All references. -/
  references : Alike (fun r : Reference => ⟨r.file, r.line, r.column⟩) f.references f'.references
  /-- The missing ones. -/
  missing : Alike (fun r : Reference => ⟨r.file, r.line, r.column⟩) f.missing f'.missing
  /-- The unused definitions. -/
  unused : Alike (fun d : Definition => ⟨d.file, d.line, d.column⟩) f.unused f'.unused
  /-- The number of names. -/
  detected : f.detected = f'.detected
  /-- The branches. -/
  dead : f.dead = f'.dead
  /-- Whether there is anything to look into. -/
  hasIssues : f.hasIssues = f'.hasIssues

/-! ### Names -/

theorem mem_readNames {name : String} : name ∈ readNames references ↔ ∃ r ∈ references, r.name = name := by
  rw [readNames, List.mem_toFinset, List.mem_map]

theorem mem_definedNames {name : String} :
    name ∈ definedNames definitions ↔ ∃ d ∈ definitions, d.name = name := by
  rw [definedNames, List.mem_toFinset, List.mem_map]

theorem readNames_of_perm (h : references.Perm references') :
    readNames references = readNames references' :=
  List.toFinset_eq_of_perm _ _ (h.map _)

theorem definedNames_of_perm (h : definitions.Perm definitions') :
    definedNames definitions = definedNames definitions' :=
  List.toFinset_eq_of_perm _ _ (h.map _)

/-- Leaving out repetitions leaves as many names as there are different ones. -/
theorem length_distinct_names (references : List Reference) :
    (distinct (references.map (·.name))).length = (readNames references).card := by
  have hnames : readNames references = (distinct (references.map (·.name))).toFinset := by
    ext name
    rw [readNames, List.mem_toFinset, List.mem_toFinset, mem_distinct]
  rw [hnames, List.toFinset_card_of_nodup (nodup_distinct _)]

theorem missing_eq (definitions : List Definition) (references : List Reference) :
    missing definitions references = references.filter fun r => ∀ d ∈ definitions, d.name ≠ r.name := by
  refine List.filter_congr fun r _ => ?_
  rw [Bool.eq_iff_iff]
  simp

theorem unused_eq (definitions : List Definition) (references : List Reference) :
    unused definitions references = definitions.filter fun d => ∀ r ∈ references, r.name ≠ d.name := by
  refine List.filter_congr fun d _ => ?_
  rw [Bool.eq_iff_iff]
  simp

/-- The missing names are those that are read and not defined. -/
theorem readNames_missing (definitions : List Definition) (references : List Reference) :
    readNames (missing definitions references) = readNames references \ definedNames definitions := by
  ext name
  rw [Finset.mem_sdiff, mem_readNames, mem_readNames, mem_definedNames, missing_eq]
  simp only [List.mem_filter, decide_eq_true_eq]
  constructor
  · rintro ⟨r, ⟨hr, hnone⟩, rfl⟩
    exact ⟨⟨r, hr, rfl⟩, fun ⟨d, hd, heq⟩ => hnone d hd heq⟩
  · rintro ⟨⟨r, hr, rfl⟩, hnone⟩
    exact ⟨r, ⟨hr, fun d hd heq => hnone ⟨d, hd, heq⟩⟩, rfl⟩

/-- Nothing is missing if every name that is read is defined. -/
theorem missing_eq_nil_iff :
    missing definitions references = [] ↔ readNames references ⊆ definedNames definitions := by
  rw [← Finset.sdiff_eq_empty_iff_subset, ← readNames_missing, readNames, List.toFinset_eq_empty_iff,
    List.map_eq_nil_iff]

/-- Nothing is unused if every name that is defined is read. -/
theorem unused_eq_nil_iff :
    unused definitions references = [] ↔ definedNames definitions ⊆ readNames references := by
  rw [unused_eq, List.filter_eq_nil_iff]
  simp only [Finset.subset_iff, mem_readNames, mem_definedNames, decide_eq_true_eq, not_forall,
    not_not, exists_prop]
  constructor
  · rintro h _ ⟨d, hd, rfl⟩
    exact h d hd
  · exact fun h d hd => h ⟨d, hd, rfl⟩

/-! ### Sorted references and definitions -/

theorem stablySorted_references (references : List Reference) :
    StablySorted (fun r : Reference => ⟨r.file, r.line, r.column⟩) references
      (sortReferences references) :=
  stablySorted_mergeSort placeOfReference references

theorem stablySorted_definitions (definitions : List Definition) :
    StablySorted (fun d : Definition => ⟨d.file, d.line, d.column⟩) definitions
      (sortDefinitions definitions) :=
  stablySorted_mergeSort placeOfDefinition definitions

/-- Sorting the definitions has no bearing on what is missing. -/
theorem missing_of_perm (h : definitions.Perm definitions') (references : List Reference) :
    missing definitions references = missing definitions' references := by
  rw [missing_eq, missing_eq]
  simp only [h.mem_iff]

theorem unused_of_perm (definitions : List Definition) (h : references.Perm references') :
    unused definitions references = unused definitions references' := by
  rw [unused_eq, unused_eq]
  simp only [h.mem_iff]

/-! ### Findings -/

/-- Reconciling, with sorted lists only where their order matters. -/
theorem reconcile_eq (references : List Reference) (definitions : List Definition)
    (dead : List DeadConditional) :
    reconcile references definitions dead =
      { detected := (readNames references).card
        unused := unused (sortDefinitions definitions) references
        missing := missing definitions (sortReferences references)
        dead := dead
        references := sortReferences references } := by
  have hreferences := (stablySorted_references references).perm
  have hdefinitions := (stablySorted_definitions definitions).perm
  rw [reconcile, length_distinct_names, readNames_of_perm hreferences,
    unused_of_perm _ hreferences, missing_of_perm hdefinitions]

theorem hasIssues_reconcile_eq_false_iff :
    (reconcile references definitions []).hasIssues = false ↔
      readNames references = definedNames definitions := by
  rw [reconcile_eq]
  simp only [Findings.hasIssues, Bool.not_eq_false', Bool.and_eq_true, List.isEmpty_iff, and_true,
    missing_eq_nil_iff, unused_eq_nil_iff]
  rw [readNames_of_perm (stablySorted_references references).perm,
    definedNames_of_perm (stablySorted_definitions definitions).perm]
  exact ⟨fun h => h.2.antisymm h.1, fun h => ⟨h.ge, h.le⟩⟩

theorem reconciles_reconcile (references : List Reference) (definitions : List Definition) :
    Reconciles references definitions (reconcile references definitions []) where
  sorted l := by
    rw [reconcile_eq]
    exact stablySorted_iff
  missing := by
    rw [reconcile_eq]
    exact missing_eq definitions _
  unused := by
    rw [reconcile_eq]
    exact ⟨_, fun l => stablySorted_iff, unused_eq _ references⟩
  apart r hr d hd heq := by
    rw [reconcile_eq, missing_eq] at hr
    rw [reconcile_eq] at hd
    have hdefined := (List.mem_filter.mp hd).1
    rw [(stablySorted_definitions definitions).perm.mem_iff] at hdefined
    have hnone := of_decide_eq_true (List.mem_filter.mp hr).2
    exact hnone d hdefined heq.symm
  detected := by rw [reconcile_eq]
  detected_eq_add := by
    rw [reconcile_eq]
    simp only
    rw [readNames_missing, readNames_of_perm (stablySorted_references references).perm, ← Int.natCast_add,
      Finset.card_sdiff_add_card_inter]
  hasIssues := hasIssues_reconcile_eq_false_iff

/-- The order in which references and definitions come decides only the order of what stands at the same
place. -/
theorem alikeFindings_of_perm (hreferences : references.Perm references')
    (hdefinitions : definitions.Perm definitions') :
    AlikeFindings (reconcile references definitions []) (reconcile references' definitions' []) where
  references := by
    rw [reconcile_eq, reconcile_eq]
    simpa using (stablySorted_references references).alike (stablySorted_references references')
      hreferences fun _ => true
  missing := by
    rw [reconcile_eq, reconcile_eq, missing_of_perm hdefinitions]
    exact (stablySorted_references references).alike (stablySorted_references references') hreferences _
  unused := by
    rw [reconcile_eq, reconcile_eq, unused_of_perm _ hreferences]
    exact (stablySorted_definitions definitions).alike (stablySorted_definitions definitions')
      hdefinitions _
  detected := by
    rw [reconcile_eq, reconcile_eq, readNames_of_perm hreferences]
  dead := rfl
  hasIssues := by
    rw [Bool.eq_iff_iff, ← not_iff_not, Bool.not_eq_true, Bool.not_eq_true,
      hasIssues_reconcile_eq_false_iff, hasIssues_reconcile_eq_false_iff,
      readNames_of_perm hreferences, definedNames_of_perm hdefinitions]

/-- With no files to look at, nothing is reported on the way. -/
theorem reports_analyze (t : FileTree) (references : List Reference) (definitions : List Definition) :
    Reports (Run.analyze t [] references definitions) (reconcile references definitions []) [] :=
  fun log => by
    rw [List.append_nil]
    rfl

/-- Reconciling references and definitions gives all references in the order of their places, the missing
ones among them, the unused definitions in the same order, and the numbers that belong to them. If the
references and definitions come in another order, what stands at the same place may come in another order,
and that is all. -/
theorem analyze_exact (t : FileTree) (references : List Reference) (definitions : List Definition) :
    ∃ f, Reports (Run.analyze t [] references definitions) f [] ∧
      Reconciles references definitions f ∧
      ∀ references' definitions', references.Perm references' → definitions.Perm definitions' →
        ∃ f', Reports (Run.analyze t [] references' definitions') f' [] ∧ AlikeFindings f f' :=
  ⟨_, reports_analyze t references definitions, reconciles_reconcile references definitions,
    fun _ _ hreferences hdefinitions =>
      ⟨_, reports_analyze t _ _, alikeFindings_of_perm hreferences hdefinitions⟩⟩

/-- What stands at the same place keeps its order, and names that differ in case are different. -/
example :
    reconcile [⟨"B", "f", 10, 2, ""⟩, ⟨"A", "f", 10, 2, ""⟩, ⟨"C", "f", 9, 5, ""⟩]
        [⟨"b", "g", 1, 1⟩, ⟨"C", "g", 1, 1⟩] [] =
      { detected := 3
        unused := [⟨"b", "g", 1, 1⟩]
        missing := [⟨"B", "f", 10, 2, ""⟩, ⟨"A", "f", 10, 2, ""⟩]
        references := [⟨"C", "f", 9, 5, ""⟩, ⟨"B", "f", 10, 2, ""⟩, ⟨"A", "f", 10, 2, ""⟩] } := by
  cbv

end FlagAudit.Analysis
