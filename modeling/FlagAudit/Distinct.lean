/-!
# Lists without repetitions
-/

namespace FlagAudit

/-- The list without its repetitions: of equal elements the first one stays. -/
def distinct {α : Type} [BEq α] : List α → List α
  | [] => []
  | x :: xs => x :: (distinct xs).filter (· != x)

/-- Leaving out repetitions loses no element and adds none. -/
theorem mem_distinct {α : Type} [BEq α] [LawfulBEq α] {a : α} {xs : List α} :
    a ∈ distinct xs ↔ a ∈ xs := by
  induction xs with
  | nil => rfl
  | cons x xs ih =>
    simp only [distinct, List.mem_cons, List.mem_filter, ih, bne_iff_ne, ne_eq]
    constructor
    · rintro (h | ⟨h, -⟩)
      · exact .inl h
      · exact .inr h
    · rintro (h | h)
      · exact .inl h
      · by_cases hx : a = x
        · exact .inl hx
        · exact .inr ⟨h, hx⟩

/-- What is left has no repetitions. -/
theorem nodup_distinct {α : Type} [BEq α] [LawfulBEq α] (xs : List α) : (distinct xs).Nodup := by
  induction xs with
  | nil => exact List.nodup_nil
  | cons x xs ih =>
    refine List.nodup_cons.mpr ⟨?_, ih.filter _⟩
    simp

/-- A list that has no repetitions stays as it is. -/
theorem distinct_eq_self {α : Type} [BEq α] [LawfulBEq α] {xs : List α} (h : xs.Nodup) :
    distinct xs = xs := by
  induction xs with
  | nil => rfl
  | cons x xs ih =>
    rw [List.nodup_cons] at h
    rw [distinct, ih h.2, List.filter_eq_self.mpr]
    intro a ha
    rw [bne_iff_ne]
    rintro rfl
    exact h.1 ha

/-- Of a second list, only what is not in the first one stays. -/
theorem distinct_append {α : Type} [BEq α] [LawfulBEq α] (xs ys : List α) :
    distinct (xs ++ ys) = distinct xs ++ (distinct ys).filter (!xs.contains ·) := by
  induction xs with
  | nil => exact (List.filter_eq_self.mpr fun _ _ => rfl).symm
  | cons x xs ih =>
    rw [List.cons_append, distinct, distinct, ih, List.filter_append, List.filter_filter,
      List.cons_append]
    congr 2
    refine List.filter_congr fun a _ => ?_
    rw [List.contains_cons, Bool.not_or]
    rfl

/-- A second list that has nothing new adds nothing. -/
theorem distinct_append_of_subset {α : Type} [BEq α] [LawfulBEq α] {xs ys : List α}
    (hxs : xs.Nodup) (hys : ∀ y ∈ ys, y ∈ xs) : distinct (xs ++ ys) = xs := by
  rw [distinct_append, distinct_eq_self hxs, List.filter_eq_nil_iff.mpr, List.append_nil]
  intro y hy
  simpa using hys y (mem_distinct.mp hy)

end FlagAudit
