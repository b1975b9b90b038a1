import Mathlib.Data.List.Sort

/-!
# Lists sorted by their keys

A list of values with keys has one sorted order only if no two values have the same key.
-/

namespace FlagAudit

variable {α β : Type} [LinearOrder α] [DecidableLE α]

theorem pairwise_mergeSort_keys (l : List (α × β)) :
    (l.mergeSort fun a b => decide (a.1 ≤ b.1)).Pairwise fun a b => a.1 ≤ b.1 := by
  have hsorted : (l.mergeSort fun a b => decide (a.1 ≤ b.1)).Pairwise
      fun a b => decide (a.1 ≤ b.1) = true :=
    List.pairwise_mergeSort (fun a b c => by simpa using le_trans)
      (fun a b => by simpa using le_total a.1 b.1) l
  simpa using hsorted

/-- Sorting gives the one sorted list that has the same values. -/
theorem mergeSort_keys_eq {l sorted : List (α × β)} (h : l.Perm sorted)
    (hsorted : sorted.Pairwise fun a b => a.1 ≤ b.1)
    (hkeys : ∀ a ∈ l, ∀ b ∈ l, a.1 = b.1 → a = b) :
    (l.mergeSort fun a b => decide (a.1 ≤ b.1)) = sorted := by
  refine List.Perm.eq_of_pairwise (fun a b ha hb hab hba => ?_) (pairwise_mergeSort_keys l) hsorted
    ((List.mergeSort_perm _ _).trans h)
  rw [List.mem_mergeSort] at ha
  exact hkeys a ha b (h.mem_iff.mpr hb) (le_antisymm hab hba)

end FlagAudit
