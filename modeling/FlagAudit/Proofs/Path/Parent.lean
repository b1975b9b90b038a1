import Mathlib.Data.List.TakeWhile
import FlagAudit.Proofs.Path.Relative

/-!
# A file seen from the directory that holds it

The path of the directory that holds a file is what is before the name of the file, without the slashes
at its end. Slashes at the end of a path add no part to it, so from there the file is spelled by its name
alone (`relative_parent`), however the path of the file is spelled.
-/

namespace FlagAudit.Path

open FileTree (isEntryName)

variable {cwd dir name : String} {slashes : List Char}

/-! ### Slashes at the end of a path -/

theorem isAbsolute_append (hdir : dir ≠ "") (more : String) : isAbsolute (dir ++ more) = isAbsolute dir := by
  have hne : dir.toList ≠ [] := fun hnil => hdir (String.toList_eq_nil_iff.mp hnil)
  rw [isAbsolute, String.toList_append, List.head?_append_of_ne_nil _ hne, isAbsolute]

theorem seenFrom_append (hdir : dir ≠ "") (cwd more : String) :
    (seenFrom cwd (dir ++ more)).toList = (seenFrom cwd dir).toList ++ more.toList := by
  have hsame := isAbsolute_append hdir more
  rw [seenFrom, seenFrom, hsame]
  split
  · rw [String.toList_append]
  · next hrelative =>
    have hdirRelative : isAbsolute dir = false := Bool.eq_false_iff.mpr hrelative
    rw [toList_join_of_relative (hsame.trans hdirRelative), toList_join_of_relative hdirRelative,
      String.toList_append, List.append_assoc]

/-- Slashes at the end of a path add no part. -/
theorem properParts_absolute_append_slashes (hcwd : isAbsolute cwd = true)
    (h : ∀ c ∈ slashes, c = '/') (hdir : dir ≠ "") :
    properParts (absolute cwd (dir ++ String.ofList slashes)) = properParts (absolute cwd dir) := by
  have hstack : ∀ path : List Char, stackOf true (path ++ slashes) = stackOf true path := by
    induction slashes with
    | nil => simp
    | cons c slashes ih =>
      rw [List.forall_mem_cons] at h
      intro path
      rw [h.1, ← List.singleton_append, ← List.append_assoc, ih h.2, stackOf_append_slash_nil]
  rw [absolute_eq, absolute_eq, properParts_normalize (isAbsolute_seenFrom hcwd _),
    properParts_normalize (isAbsolute_seenFrom hcwd _), seenFrom_append hdir, String.toList_ofList, hstack]

/-! ### The directory that holds a file -/

/-- What stands before the name of an entry is the path of its directory, with a slash if need be. -/
theorem entryPrefix_eq_append (dir : String) :
    ∃ slashes, (∀ c ∈ slashes, c = '/') ∧ entryPrefix dir = dir.toList ++ slashes := by
  rw [entryPrefix]
  split
  · exact ⟨[], List.forall_mem_nil _, (List.append_nil _).symm⟩
  · exact ⟨['/'], by simp, rfl⟩

/-- The path of the directory that holds an entry is what stands before the name of the entry, without the
slashes at its end; if there is nothing else, the slashes stay. -/
theorem parent_join (h : isEntryName name = true) (hdir : dir ≠ "") :
    parent (join dir name) ≠ "" ∧
      ∃ slashes, (∀ c ∈ slashes, c = '/') ∧
        entryPrefix dir = (parent (join dir name)).toList ++ slashes := by
  have hhead : ((join dir name).toList.reverse.dropWhile (· != '/')).reverse = entryPrefix dir := by
    have hname : ∀ c ∈ name.toList.reverse, (c != '/') = true := by
      intro c hc
      rw [bne_iff_ne]
      rintro rfl
      exact (of_isEntryName h).2 (List.mem_reverse.mp hc)
    rw [toList_join h, List.reverse_append, List.dropWhile_append_of_pos hname]
    rcases entryPrefix_ends dir with hnil | hlast
    · rw [hnil]
      rfl
    · obtain ⟨before, hbefore⟩ := List.getLast?_eq_some_iff.mp hlast
      simp [hbefore]
  have hne : entryPrefix dir ≠ [] := by
    obtain ⟨slashes, -, heq⟩ := entryPrefix_eq_append dir
    rw [heq]
    exact List.append_ne_nil_of_left_ne_nil (fun hnil => hdir (String.toList_eq_nil_iff.mp hnil)) _
  rw [parent, hhead, Ne, ← String.toList_eq_nil_iff]
  by_cases hall : (entryPrefix dir).all (· == '/') = true
  · rw [if_pos hall, String.toList_ofList]
    exact ⟨hne, [], List.forall_mem_nil _, (List.append_nil _).symm⟩
  · rw [if_neg hall, String.toList_ofList]
    constructor
    · intro hnil
      rw [List.reverse_eq_nil_iff, List.dropWhile_eq_nil_iff] at hnil
      exact hall (List.all_eq_true.mpr fun c hc => hnil c (List.mem_reverse.mpr hc))
    · refine ⟨((entryPrefix dir).reverse.takeWhile (· == '/')).reverse, fun c hc => ?_, ?_⟩
      · have hslash := List.mem_takeWhile_imp (List.mem_reverse.mp hc)
        exact beq_iff_eq.mp hslash
      · rw [← List.reverse_append, List.takeWhile_append_dropWhile, List.reverse_reverse]

/-- Seen from the directory that holds it, a file is spelled by its name. -/
theorem relative_parent (hcwd : isAbsolute cwd = true) (h : isEntryName name = true) (hdir : dir ≠ "") :
    relative cwd (join dir name) (parent (join dir name)) = below "" [name] := by
  obtain ⟨hne, slashes, hslashes, heq⟩ := parent_join h hdir
  obtain ⟨slashes', hslashes', heq'⟩ := entryPrefix_eq_append dir
  have hsame : parent (join dir name) ++ String.ofList slashes = dir ++ String.ofList slashes' := by
    rw [← String.toList_inj, String.toList_append, String.toList_append, String.toList_ofList,
      String.toList_ofList, ← heq, heq']
  have hparts : properParts (absolute cwd (parent (join dir name))) = properParts (absolute cwd dir) := by
    rw [← properParts_absolute_append_slashes hcwd hslashes hne, hsame,
      properParts_absolute_append_slashes hcwd hslashes' hdir]
  have hname : ∀ n ∈ [name], isEntryName n = true := by simpa using h
  refine relative_of_properParts (List.cons_ne_nil _ _) hname ?_
  rw [hparts]
  exact properParts_absolute_below hcwd hname dir

/-- A directory may be spelled with slashes at its end, and it may be the root of the tree. -/
example : parent "src//app.ts" = "src" ∧ parent "//app.ts" = "//" ∧
    relative "/home" "src//app.ts" (parent "src//app.ts") = "app.ts" := by
  decide +kernel

end FlagAudit.Path
