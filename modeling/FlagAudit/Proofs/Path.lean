import Mathlib.Data.List.Basic
import FlagAudit.FileTree.Basic
import FlagAudit.Path

/-!
# Paths to what is below a directory

From the path of a directory, a list of names leads to something below it. The names of entries have
no slash in them and are not empty, so different names lead to different paths.
-/

namespace FlagAudit.Path

open FileTree (Location isEntryName)

/-- The path of what some names lead to from the directory `dir`. -/
def below (dir : String) (names : Location) : String := names.foldl join dir

@[simp]
theorem below_nil (dir : String) : below dir [] = dir := rfl

@[simp]
theorem below_cons (dir name : String) (names : Location) :
    below dir (name :: names) = below (join dir name) names := rfl

/-- The names of entries are not empty, and no slash is in them. -/
theorem of_isEntryName {name : String} (h : isEntryName name = true) :
    name.toList ≠ [] ∧ '/' ∉ name.toList := by
  simp only [isEntryName, Bool.and_eq_true, bne_iff_ne, Bool.not_eq_true', ← Bool.not_eq_true,
    List.contains_iff_mem] at h
  exact ⟨fun hnil => h.1.1.1.1 (String.toList_eq_nil_iff.mp hnil), h.1.2⟩

/-- What stands before the name of an entry of a directory in its path. -/
def entryPrefix (dir : String) : List Char :=
  if dir.isEmpty || dir.toList.getLast? == some '/' then dir.toList else dir.toList ++ ['/']

/-- A path that does not start at the root comes behind the directory that it is seen from. -/
theorem toList_join_of_relative {path : String} (h : isAbsolute path = false) (dir : String) :
    (join dir path).toList = entryPrefix dir ++ path.toList := by
  rw [join, entryPrefix, h, if_neg Bool.false_ne_true]
  split
  · rw [String.toList_append]
  · simp

theorem isAbsolute_name {name : String} (h : isEntryName name = true) : isAbsolute name = false := by
  rw [isAbsolute, beq_eq_false_iff_ne]
  intro hhead
  exact (of_isEntryName h).2 (List.mem_of_head? hhead)

theorem toList_join {name : String} (h : isEntryName name = true) (dir : String) :
    (join dir name).toList = entryPrefix dir ++ name.toList :=
  toList_join_of_relative (isAbsolute_name h) dir

theorem entryPrefix_join {name : String} (h : isEntryName name = true) (dir : String) :
    entryPrefix (join dir name) = entryPrefix dir ++ name.toList ++ ['/'] := by
  obtain ⟨hne, hslash⟩ := of_isEntryName h
  have hlast : (join dir name).toList.getLast? ≠ some '/' := by
    rw [toList_join h, List.getLast?_append_of_ne_nil _ hne]
    exact fun hlast => hslash (List.mem_of_getLast? hlast)
  have hempty : (join dir name).isEmpty = false := by
    rw [← Bool.not_eq_true, String.isEmpty_iff, ← String.toList_eq_nil_iff, toList_join h]
    exact fun hnil => hne (List.append_eq_nil_iff.mp hnil).2
  rw [entryPrefix, hempty, Bool.false_or, if_neg (by simpa using hlast), toList_join h]

/-- The names in a path below a directory stand between slashes. -/
theorem toList_below {name : String} {names : Location}
    (h : ∀ n ∈ name :: names, isEntryName n = true) (dir : String) :
    (below dir (name :: names)).toList =
      entryPrefix dir ++ joinParts ((name :: names).map String.toList) := by
  induction names generalizing dir name with
  | nil =>
    rw [below_cons, below_nil, toList_join (h name List.mem_cons_self)]
    simp [joinParts]
  | cons next rest ih =>
    rw [List.forall_mem_cons] at h
    rw [below_cons, ih h.2, entryPrefix_join h.1]
    simp [joinParts]

/-- Different names lead to different paths. -/
theorem below_injective {names names' : Location} (hne : names ≠ []) (hne' : names' ≠ [])
    (h : ∀ n ∈ names, isEntryName n = true) (h' : ∀ n ∈ names', isEntryName n = true)
    {dir : String} (heq : below dir names = below dir names') : names = names' := by
  obtain ⟨name, rest, rfl⟩ := List.exists_cons_of_ne_nil hne
  obtain ⟨name', rest', rfl⟩ := List.exists_cons_of_ne_nil hne'
  have hjoin := congrArg String.toList heq
  rw [toList_below h, toList_below h', List.append_cancel_left_eq] at hjoin
  have hparts : ∀ names : Location, names ≠ [] → (∀ n ∈ names, isEntryName n = true) →
      (joinParts (names.map String.toList)).splitOn '/' = names.map String.toList := by
    intro names hne h
    refine List.splitOn_intercalate '/' (fun part hpart => ?_) (by simpa using hne)
    obtain ⟨n, hn, rfl⟩ := List.mem_map.mp hpart
    exact (of_isEntryName (h n hn)).2
  have hmap := congrArg (List.splitOn '/') hjoin
  rw [hparts _ hne h, hparts _ hne' h'] at hmap
  exact List.map_injective_iff.mpr (fun _ _ => String.toList_inj.mp) hmap

end FlagAudit.Path
