/-!
# Texts inside texts
-/

namespace FlagAudit.Text

/-- Whether a text occurs somewhere in another. -/
def occursIn (part : List Char) : List Char → Bool
  | [] => part.isEmpty
  | c :: rest => part.isPrefixOf (c :: rest) || occursIn part rest

/-- A text occurs in another just if the other has it between a start and an end. -/
theorem occursIn_iff {part s : List Char} :
    occursIn part s = true ↔ ∃ a b, s = a ++ part ++ b := by
  induction s with
  | nil =>
    simp only [occursIn, List.isEmpty_iff]
    constructor
    · rintro rfl
      exact ⟨[], [], rfl⟩
    · rintro ⟨a, b, h⟩
      simp_all
  | cons c rest ih =>
    simp only [occursIn, Bool.or_eq_true, List.isPrefixOf_iff_prefix, ih]
    constructor
    · rintro (⟨b, hb⟩ | ⟨a, b, hb⟩)
      · exact ⟨[], b, by simpa using hb.symm⟩
      · exact ⟨c :: a, b, by simp [hb]⟩
    · rintro ⟨a, b, hb⟩
      cases a with
      | nil => exact .inl ⟨b, by simpa using hb.symm⟩
      | cons x a =>
        simp only [List.cons_append, List.cons.injEq] at hb
        exact .inr ⟨a, b, hb.2⟩

end FlagAudit.Text
