/-!
# Named values in a list
-/

namespace FlagAudit

/-- The list with the value under a name set: a value that is there is replaced in its place, and a
new one comes last. -/
def setField {α : Type} (name : String) (value : α) : List (String × α) → List (String × α)
  | [] => [(name, value)]
  | e :: es => if e.1 == name then (name, value) :: es else e :: setField name value es

/-- What is in a list after something has been set is that or has been there before. -/
theorem mem_setField {α : Type} {name : String} {value : α} {fields : List (String × α)}
    {e : String × α} (h : e ∈ setField name value fields) : e = (name, value) ∨ e ∈ fields := by
  induction fields with
  | nil => exact .inl (List.mem_singleton.mp h)
  | cons f fs ih =>
    rw [setField] at h
    split at h
    · rcases List.mem_cons.mp h with rfl | h
      · exact .inl rfl
      · exact .inr (.tail _ h)
    · rcases List.mem_cons.mp h with rfl | h
      · exact .inr List.mem_cons_self
      · exact (ih h).imp_right (.tail _)

/-- Setting a value keeps the names apart. -/
theorem nodup_setField {α : Type} (name : String) (value : α) {fields : List (String × α)}
    (h : (fields.map (·.1)).Nodup) : ((setField name value fields).map (·.1)).Nodup := by
  induction fields with
  | nil => simp [setField]
  | cons f fs ih =>
    rw [List.map_cons, List.nodup_cons] at h
    rw [setField]
    split
    · next hf =>
      rw [beq_iff_eq] at hf
      exact List.nodup_cons.mpr ⟨hf ▸ h.1, h.2⟩
    · next hf =>
      refine List.nodup_cons.mpr ⟨fun hm => ?_, ih h.2⟩
      obtain ⟨e, he, hname⟩ := List.mem_map.mp hm
      rcases mem_setField he with rfl | he
      · exact hf (beq_iff_eq.mpr hname.symm)
      · exact h.1 (List.mem_map.mpr ⟨e, he, hname⟩)

/-- What is found under a name is in the list. -/
theorem mem_of_lookup {α : Type} {name : String} {value : α} {fields : List (String × α)}
    (h : fields.lookup name = some value) : (name, value) ∈ fields := by
  obtain ⟨l₁, l₂, rfl, -⟩ := List.lookup_eq_some_iff.mp h
  simp

/-- What has been set is found. -/
theorem lookup_setField_self {α : Type} (name : String) (value : α) (fields : List (String × α)) :
    (setField name value fields).lookup name = some value := by
  induction fields with
  | nil => simp [setField]
  | cons e es ih =>
    obtain ⟨k, v⟩ := e
    by_cases h : k = name
    · simp [setField, h]
    · simp [setField, h, List.lookup_cons, beq_false_of_ne (Ne.symm h), ih]

/-- Setting one name leaves the others alone. -/
theorem lookup_setField_of_ne {α : Type} {name other : String} (h : other ≠ name) (value : α)
    (fields : List (String × α)) :
    (setField name value fields).lookup other = fields.lookup other := by
  induction fields with
  | nil => simp [setField, List.lookup_cons, beq_false_of_ne h]
  | cons e es ih =>
    obtain ⟨k, v⟩ := e
    by_cases hk : k = name
    · subst hk
      simp [setField, List.lookup_cons, beq_false_of_ne h]
    · simp [setField, hk, List.lookup_cons, ih]

end FlagAudit
