import FlagAudit.Proofs.Json.RoundTrip
import FlagAudit.Report

/-!
# The report for a program loses nothing

The findings can be taken from a JSON report again, field by field (`findings?_ofFindings`), so no two
findings have the same report. Whatever report can be written is read back as it has been made: the writer
refuses the same numbers as the reader, those with too many digits (`reads_report`).
-/

namespace FlagAudit.Report

/-! ### Findings from JSON -/

section Fields

variable (key : String) (j : Json)

/-- The text under a key. -/
def text? : Option String :=
  match j.field? key with
  | some (.string s) => some s
  | _ => none

/-- The whole number under a key. -/
def int? : Option Int :=
  match j.field? key with
  | some (.int n) => some n
  | _ => none

/-- The truth value under a key. -/
def bool? : Option Bool :=
  match j.field? key with
  | some (.bool b) => some b
  | _ => none

/-- The items under a key, if each of them can be read. -/
def items? {α : Type} (read : Json → Option α) : Option (List α) :=
  match j.field? key with
  | some (.array items) => items.mapM read
  | _ => none

end Fields

/-- The reference that an object describes. -/
def reference? (j : Json) : Option Reference := do
  return ⟨← text? "name" j, ← text? "file" j, ← int? "line" j, ← int? "column" j, ← text? "pattern" j⟩

/-- The definition that an object describes. -/
def definition? (j : Json) : Option Definition := do
  return ⟨← text? "name" j, ← text? "file" j, ← int? "line" j, ← int? "column" j⟩

/-- The dead conditional that an object describes. -/
def deadConditional? (j : Json) : Option DeadConditional := do
  (DeadConditional.ofOutcomes (← text? "file" j) (← int? "line" j) (← int? "column" j)
    (← text? "condition" j) (← bool? "always_true" j) (← bool? "always_false" j)).toOption

/-- The findings that a report is about. -/
def findings? (j : Json) : Option Findings := do
  return ⟨← int? "flags_detected" j, ← items? "flags_unused" j definition?,
    ← items? "flags_missing" j reference?, ← items? "dead_conditionals" j deadConditional?,
    ← items? "all_flags" j reference?⟩

theorem mapM_map_eq_some {α : Type} {write : α → Json} {read : Json → Option α}
    (h : ∀ a, read (write a) = some a) (l : List α) : (l.map write).mapM read = some l := by
  induction l with
  | nil => rfl
  | cons a l ih => simp [h, ih]

theorem reference?_ofReference (r : Reference) : reference? (ofReference r) = some r := rfl

theorem definition?_ofDefinition (d : Definition) : definition? (ofDefinition d) = some d := rfl

theorem deadConditional?_ofDeadConditional (d : DeadConditional) :
    deadConditional? (ofDeadConditional d) = some d := by
  obtain ⟨file, line, column, condition, outcome⟩ := d
  cases outcome <;> rfl

/-- The findings can be taken from what is reported of them. -/
theorem findings?_ofFindings (f : Findings) : findings? (ofFindings f) = some f := by
  have hunused : items? "flags_unused" (ofFindings f) definition? = some f.unused :=
    mapM_map_eq_some definition?_ofDefinition f.unused
  have hmissing : items? "flags_missing" (ofFindings f) reference? = some f.missing :=
    mapM_map_eq_some reference?_ofReference f.missing
  have hdead : items? "dead_conditionals" (ofFindings f) deadConditional? = some f.dead :=
    mapM_map_eq_some deadConditional?_ofDeadConditional f.dead
  have hall : items? "all_flags" (ofFindings f) reference? = some f.references :=
    mapM_map_eq_some reference?_ofReference f.references
  have hdetected : int? "flags_detected" (ofFindings f) = some f.detected := rfl
  rw [findings?, hdetected, hunused, hmissing, hdead, hall]
  rfl

/-- Different findings are reported differently. -/
theorem ofFindings_injective : Function.Injective ofFindings := by
  intro f g h
  have hg := findings?_ofFindings g
  rw [← h, findings?_ofFindings f] at hg
  exact Option.some.inj hg

/-! ### The numbers in a report -/

/-- All numbers in some findings, in the order in which they are reported. -/
def numbersOf (f : Findings) : List Int :=
  f.detected :: f.unused.flatMap (fun d => [d.line, d.column]) ++
    f.missing.flatMap (fun r => [r.line, r.column]) ++
    f.dead.flatMap (fun d => [d.line, d.column]) ++
    f.references.flatMap (fun r => [r.line, r.column])

theorem integersOfItems_map {α : Type} (write : α → Json) (l : List α) :
    Json.integersOfItems (l.map write) = l.flatMap fun a => (write a).integers := by
  induction l with
  | nil => rfl
  | cons a l ih => rw [List.map_cons, Json.integersOfItems, ih, List.flatMap_cons]

theorem integers_ofFindings (f : Findings) : (ofFindings f).integers = numbersOf f := by
  have hdefinition : ∀ d, (ofDefinition d).integers = [d.line, d.column] := fun _ => rfl
  have hreference : ∀ r, (ofReference r).integers = [r.line, r.column] := fun _ => rfl
  have hdead : ∀ d, (ofDeadConditional d).integers = [d.line, d.column] := fun _ => rfl
  simp [ofFindings, Json.integers, Json.integersOfFields, Json.integersOfField, integersOfItems_map,
    hdefinition, hreference, hdead, numbersOf]

/-! ### Writing -/

section

variable {numbers : List Int} {s : String} {layout : Json.Layout} {v : Json} {style : Style} {f : Findings}

theorem unlessTooLong_eq_ok_iff {text : String} :
    Json.unlessTooLong numbers s = .ok text ↔
      text = s ∧ ∀ n ∈ numbers, Text.digitCount n ≤ Text.digitLimit := by
  simp only [Json.unlessTooLong, List.all_eq_true, decide_eq_true_eq]
  split
  · next hall => rw [and_iff_left hall, Except.ok.injEq, eq_comm]
  · next hall => simp only [reduceCtorEq, hall, and_false]

theorem unlessTooLong_eq_error_iff :
    Json.unlessTooLong numbers s = .error .unwritable ↔
      ∃ n ∈ numbers, Text.digitLimit < Text.digitCount n := by
  rw [Json.unlessTooLong]
  split
  · next hall => simpa using hall
  · next hall => simpa using hall

theorem write_of_json (hjson : style.json = true) :
    write style f = Json.write .indented (ofFindings f) := by
  rw [write, render, if_pos hjson, if_pos hjson, Json.write]

/-- A value that has been written is read back from a file, unless one of its numbers has too many digits. -/
theorem read_render_iff :
    Json.read (Text.unifyNewlines (Json.render layout v).toList) = .ok v ↔
      ∀ n ∈ v.integers, Text.digitCount n ≤ Text.digitLimit := by
  rw [Json.unifyNewlines_render, Json.read, Json.readUpTo_render, Json.keeping_eq_ok_iff]

/-- A value can be written and is read back from a file, unless one of its numbers has too many digits. -/
theorem exists_write_iff :
    (∃ text, Json.write layout v = .ok text ∧
        Json.read (Text.unifyNewlines text.toList) = .ok v) ↔
      ∀ n ∈ v.integers, Text.digitCount n ≤ Text.digitLimit := by
  simp only [Json.write, unlessTooLong_eq_ok_iff]
  constructor
  · rintro ⟨text, ⟨-, hshort⟩, -⟩
    exact hshort
  · exact fun hshort => ⟨_, ⟨rfl, hshort⟩, read_render_iff.mpr hshort⟩

theorem write_eq_error_iff :
    Json.write layout v = .error .unwritable ↔ ∃ n ∈ v.integers, Text.digitLimit < Text.digitCount n :=
  unlessTooLong_eq_error_iff

/-- What is written in the same way is the same. -/
theorem eq_of_write {w : Json} {text : String} (h : Json.write layout v = .ok text)
    (h' : Json.write layout w = .ok text) : v = w := by
  rw [Json.write, unlessTooLong_eq_ok_iff] at h h'
  exact Json.render_injective layout (h.1.symm.trans h'.1)

end

/-! ### Reading a report -/

/-- A JSON report can be made, and it is read back with every field as it has been, exactly if no number in it
has too many digits; otherwise there is no report. The findings can be taken from what is read, and findings
that have a report share it with no others. So it is with all JSON values, in both layouts. -/
theorem reads_report :
    (∀ (f : Findings) (ci verbose : Bool),
      ((∃ text, write ⟨true, ci, verbose⟩ f = .ok text ∧
          Json.read (Text.unifyNewlines text.toList) = .ok (ofFindings f)) ↔
        ∀ n ∈ numbersOf f, Text.digitCount n ≤ Text.digitLimit) ∧
      (write ⟨true, ci, verbose⟩ f = .error .unwritable ↔
        ∃ n ∈ numbersOf f, Text.digitLimit < Text.digitCount n) ∧
      findings? (ofFindings f) = some f) ∧
    (∀ (f g : Findings) (ci verbose ci' verbose' : Bool) (text : String),
      write ⟨true, ci, verbose⟩ f = .ok text → write ⟨true, ci', verbose'⟩ g = .ok text → f = g) ∧
    ∀ (layout : Json.Layout) (v : Json),
      ((∃ text, Json.write layout v = .ok text ∧
          Json.read (Text.unifyNewlines text.toList) = .ok v) ↔
        ∀ n ∈ v.integers, Text.digitCount n ≤ Text.digitLimit) ∧
      (Json.write layout v = .error .unwritable ↔
        ∃ n ∈ v.integers, Text.digitLimit < Text.digitCount n) := by
  refine ⟨fun f ci verbose => ?_, fun f g ci verbose ci' verbose' text hf hg => ?_,
    fun layout v => ⟨exists_write_iff, write_eq_error_iff⟩⟩
  · rw [write_of_json rfl, ← integers_ofFindings]
    exact ⟨exists_write_iff, write_eq_error_iff, findings?_ofFindings f⟩
  · rw [write_of_json rfl] at hf hg
    exact ofFindings_injective (eq_of_write hf hg)

/-- Findings with a number of one digit too many have no report that is read back. -/
theorem not_always_read :
    ¬ ∀ f : Findings, ∃ text, write ⟨true, false, false⟩ f = .ok text ∧
      Json.read (Text.unifyNewlines text.toList) = .ok (ofFindings f) := by
  intro h
  have hread := h { detected := 10 ^ Text.digitLimit }
  rw [write_of_json rfl, exists_write_iff, integers_ofFindings] at hread
  exact Nat.not_le_of_lt (Json.lt_digitCount_pow (by decide)) (hread _ List.mem_cons_self)

end FlagAudit.Report
