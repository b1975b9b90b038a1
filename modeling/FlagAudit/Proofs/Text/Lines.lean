import Mathlib.Data.String.Basic
import Mathlib.Data.List.Basic

/-!
# The lines of a text

What stands between the line feeds of a text. When texts are joined with line feeds, the lines of the whole
are the lines of its parts (`lines_intercalate`), so the parts are seen again as they have been, if there is
no line feed within them (`flatMap_lines_eq_iff`).

A text is taken apart at any character by `splitInduction`, one part after the other.
-/

namespace FlagAudit.Text

/-- The lines of a text, without the line feeds. -/
def lines (s : String) : List String := (s.toList.splitOn '\n').map String.ofList

variable {s : String} {ls : List String}

theorem lines_of_notMem (h : '\n' ∉ s.toList) : lines s = [s] := by
  rw [lines, List.splitOn_eq_singleton h, List.map_singleton, String.ofList_toList]

/-- A line feed ends a line. -/
theorem lines_append_lineFeed (s s' : String) : lines (s ++ "\n" ++ s') = lines s ++ lines s' := by
  have hfeed : "\n".toList = ['\n'] := rfl
  rw [lines, String.toList_append, String.toList_append, hfeed, List.append_assoc, List.singleton_append,
    List.splitOn_append_cons_self, List.map_append, lines, lines]

/-- The lines of joined texts. -/
theorem lines_intercalate (h : ls ≠ []) : lines ("\n".intercalate ls) = ls.flatMap lines := by
  induction ls with
  | nil => exact absurd rfl h
  | cons s ls ih =>
    cases ls with
    | nil => rw [String.intercalate_singleton, List.flatMap_singleton]
    | cons s' ls =>
      rw [String.intercalate_cons_cons, lines_append_lineFeed, ih (List.cons_ne_nil _ _), ← List.flatMap_cons]

theorem lines_ne_nil (s : String) : lines s ≠ [] := by
  rw [lines, Ne, List.map_eq_nil_iff]
  exact List.splitOnP_ne_nil _ _

/-- Induction over the parts of a text between the places where a character stands. -/
theorem splitInduction (c : Char) {motive : List Char → Prop} (last : ∀ part, c ∉ part → motive part)
    (append : ∀ part rest, c ∉ part → motive rest → motive (part ++ c :: rest)) (l : List Char) :
    motive l := by
  by_cases hmem : c ∈ l
  · obtain ⟨part, rest, rfl, hpart⟩ := List.eq_append_cons_of_mem hmem
    exact append part rest hpart (splitInduction c last append rest)
  · exact last l hmem
termination_by l.length

theorem notMem_of_mem_splitOn {part l : List Char} {c : Char} (h : part ∈ l.splitOn c) : c ∉ part := by
  induction l using splitInduction c with
  | last l hl =>
    rw [List.splitOn_eq_singleton hl, List.mem_singleton] at h
    exact h ▸ hl
  | append first rest hfirst ih =>
    rw [List.splitOn_append_cons_self_of_not_mem hfirst, List.mem_cons] at h
    rcases h with rfl | h
    · exact hfirst
    · exact ih h

/-- There is no line feed in a line. -/
theorem lineFeed_notMem_of_mem_lines {l : String} (h : l ∈ lines s) : '\n' ∉ l.toList := by
  obtain ⟨part, hpart, rfl⟩ := List.mem_map.mp h
  rw [String.toList_ofList]
  exact notMem_of_mem_splitOn hpart

theorem one_lt_length_lines (h : '\n' ∈ s.toList) : 1 < (lines s).length := by
  obtain ⟨a, b, hab⟩ := List.append_of_mem h
  have ha := List.length_pos_iff.mpr (List.splitOnP_ne_nil (· == '\n') a)
  have hb := List.length_pos_iff.mpr (List.splitOnP_ne_nil (· == '\n') b)
  rw [lines, List.length_map, hab, List.splitOn_append_cons_self, List.length_append]
  exact Nat.add_le_add ha hb

theorem length_le_length_flatMap_lines (ls : List String) : ls.length ≤ (ls.flatMap lines).length := by
  induction ls with
  | nil => exact le_rfl
  | cons s ls ih =>
    have hs := List.length_pos_iff.mpr (lines_ne_nil s)
    rw [List.flatMap_cons, List.length_append, List.length_cons]
    omega

/-- Texts are lines exactly if there is no line feed within them. -/
theorem flatMap_lines_eq_iff : ls.flatMap lines = ls ↔ ∀ s ∈ ls, '\n' ∉ s.toList := by
  induction ls with
  | nil => simp
  | cons s ls ih =>
    rw [List.flatMap_cons, List.forall_mem_cons, ← ih]
    by_cases hs : '\n' ∈ s.toList
    · refine iff_of_false (fun h => ?_) fun h => h.1 hs
      have hlength := congrArg List.length h
      have hone := one_lt_length_lines hs
      have hrest := length_le_length_flatMap_lines ls
      rw [List.length_append, List.length_cons] at hlength
      omega
    · rw [lines_of_notMem hs, List.singleton_append, List.cons_inj_right, and_iff_right hs]

end FlagAudit.Text
