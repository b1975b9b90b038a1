import FlagAudit.Proofs.Path
import FlagAudit.Proofs.Text.Lines

/-!
# How the entries of a directory are spelled from it

Seen from a directory, whatever is below it is spelled by the names on the way to it, with slashes
in between (`relative_below`). How the directory itself is spelled has no bearing on it: both paths
are made absolute and normal, and then they have all parts of the directory in common.
-/

namespace FlagAudit.Path

open FileTree (Location isEntryName)

/-! ### The parts of a normal path -/

/-- What is left of the parts of a path when it is normalized, the last part first. -/
def stackOf (rooted : Bool) (path : List Char) : List (List Char) :=
  (path.splitOn '/').foldl (pushPart rooted) []

theorem stackOf_append_slash (rooted : Bool) (before behind : List Char) :
    stackOf rooted (before ++ '/' :: behind) =
      (behind.splitOn '/').foldl (pushPart rooted) (stackOf rooted before) := by
  rw [stackOf, List.splitOn_append_cons_self, List.foldl_append, ← stackOf]

/-- A slash at the end adds no part. -/
theorem stackOf_append_slash_nil (rooted : Bool) (before : List Char) :
    stackOf rooted (before ++ ['/']) = stackOf rooted before := by
  rw [stackOf_append_slash, List.splitOn_nil, List.foldl_cons, List.foldl_nil]
  rfl

/-- The name of an entry is a part that stays. -/
theorem pushPart_name {name : String} (h : isEntryName name = true) (rooted : Bool)
    (stack : List (List Char)) : pushPart rooted stack name.toList = name.toList :: stack := by
  have hne : ∀ other : String, isEntryName other = false → name.toList ≠ other.toList := by
    intro other hother heq
    rw [String.toList_inj.mp heq, hother] at h
    cases h
  have hempty : name.toList ≠ [] := hne "" rfl
  have hdot : name.toList ≠ ['.'] := hne "." rfl
  have hdots : name.toList ≠ ['.', '.'] := hne ".." rfl
  simp [pushPart, hempty, hdot, hdots]

/-- After one more part, the parts are those from before and that part, unless it is empty. -/
theorem mem_pushPart {rooted : Bool} {stack : List (List Char)} {part p : List Char}
    (h : p ∈ pushPart rooted stack part) : p ∈ stack ∨ p = part ∧ part ≠ [] := by
  unfold pushPart at h
  split at h
  · exact .inl h
  · next hpart =>
    rw [Bool.or_eq_true, not_or, beq_iff_eq] at hpart
    have hpush : ∀ q, q ∈ part :: stack → q ∈ stack ∨ q = part ∧ part ≠ [] := by
      intro q hq
      rcases List.mem_cons.mp hq with rfl | hq
      · exact .inr ⟨rfl, hpart.1⟩
      · exact .inl hq
    split at h
    · cases stack with
      | nil =>
        simp only at h
        split at h
        · cases h
        · exact hpush p h
      | cons top rest =>
        simp only at h
        split at h
        · exact hpush p h
        · exact .inl (List.mem_cons_of_mem _ h)
    · exact hpush p h

/-- The parts of a normal path are not empty, and no slash is in them. -/
theorem of_mem_stackOf {rooted : Bool} {path part : List Char} (h : part ∈ stackOf rooted path) :
    part ≠ [] ∧ '/' ∉ part := by
  suffices ∀ parts : List (List Char), (∀ p ∈ parts, '/' ∉ p) →
      ∀ stack : List (List Char), (∀ p ∈ stack, p ≠ [] ∧ '/' ∉ p) →
        ∀ p ∈ parts.foldl (pushPart rooted) stack, p ≠ [] ∧ '/' ∉ p from
    this _ (fun _ => Text.notMem_of_mem_splitOn) [] (List.forall_mem_nil _) part h
  intro parts
  induction parts with
  | nil => exact fun _ stack hstack => hstack
  | cons first parts ih =>
    intro hparts stack hstack
    rw [List.forall_mem_cons] at hparts
    rw [List.foldl_cons]
    refine ih hparts.2 _ fun p hp => ?_
    rcases mem_pushPart hp with hp | ⟨rfl, hne⟩
    · exact hstack p hp
    · exact ⟨hne, hparts.1⟩

/-- Slashes at the start add no proper part. -/
theorem filter_splitOn_replicate (n : Nat) (path : List Char) :
    ((List.replicate n '/' ++ path).splitOn '/').filter (!·.isEmpty) =
      (path.splitOn '/').filter (!·.isEmpty) := by
  induction n with
  | zero => rfl
  | succ n ih =>
    rw [List.replicate_succ, List.cons_append, List.splitOn_cons_eq_if_modifyHead,
      if_pos (beq_self_eq_true _)]
    exact ih

/-- Parts that are not empty are found again between the slashes that join them. -/
theorem filter_splitOn_joinParts {ps : List (List Char)} (h : ∀ p ∈ ps, p ≠ [] ∧ '/' ∉ p) :
    ((joinParts ps).splitOn '/').filter (!·.isEmpty) = ps := by
  cases ps with
  | nil => rfl
  | cons p ps =>
    have hsplit : (joinParts (p :: ps)).splitOn '/' = p :: ps :=
      List.splitOn_intercalate '/' (fun q hq => (h q hq).2) (List.cons_ne_nil p ps)
    rw [hsplit, List.filter_eq_self]
    intro q hq
    simpa using (h q hq).1

/-- The proper parts of a normal path from the root of the tree. -/
theorem properParts_normalize {path : String} (h : isAbsolute path = true) :
    properParts (normalize path) = (stackOf true path.toList).reverse := by
  have hslashes : leadingSlashes path.toList ≠ 0 := by
    rw [isAbsolute, beq_iff_eq] at h
    obtain ⟨rest, hrest⟩ := List.head?_eq_some_iff.mp h
    rw [hrest, leadingSlashes]
    split
    · next heq => simp at heq
    · exact Nat.succ_ne_zero 1
    · exact Nat.one_ne_zero
  have hrooted : (leadingSlashes path.toList != 0) = true := bne_iff_ne.mpr hslashes
  obtain ⟨n, hn⟩ := Nat.exists_eq_succ_of_ne_zero hslashes
  have htext : (List.replicate (leadingSlashes path.toList) '/' ++
      joinParts (stackOf true path.toList).reverse).isEmpty = false := by
    rw [hn]
    rfl
  have hnormal : normalize path = String.ofList (List.replicate (leadingSlashes path.toList) '/' ++
      joinParts (stackOf true path.toList).reverse) := by
    rw [normalize]
    rw [stackOf] at htext ⊢
    simp only [hrooted, htext, Bool.false_eq_true, if_false]
  rw [properParts, parts, hnormal, String.toList_ofList, filter_splitOn_replicate,
    filter_splitOn_joinParts fun part hpart => of_mem_stackOf (List.mem_reverse.mp hpart)]

/-! ### Entries of a directory -/

theorem isAbsolute_join {name : String} (h : isEntryName name = true) (dir : String) :
    isAbsolute (join dir name) = isAbsolute dir := by
  rw [isAbsolute, toList_join h, isAbsolute, entryPrefix]
  cases hdir : dir.toList with
  | nil =>
    have hempty : dir.isEmpty = true := String.isEmpty_iff.mpr (String.toList_eq_nil_iff.mp hdir)
    rw [hempty, Bool.true_or, if_pos rfl]
    exact isAbsolute_name h
  | cons c rest =>
    split <;> rfl

theorem isAbsolute_below {names : Location} (h : ∀ n ∈ names, isEntryName n = true)
    (dir : String) : isAbsolute (below dir names) = isAbsolute dir := by
  induction names generalizing dir with
  | nil => rfl
  | cons name names ih =>
    rw [List.forall_mem_cons] at h
    rw [below_cons, ih h.2, isAbsolute_join h.1]

/-- The proper parts of the path of an entry are those of its directory and the name. -/
theorem stackOf_join {dir name : String} (h : isEntryName name = true)
    (hdir : isAbsolute dir = true) (rooted : Bool) :
    stackOf rooted (join dir name).toList = name.toList :: stackOf rooted dir.toList := by
  have hsplit : name.toList.splitOn '/' = [name.toList] :=
    List.splitOn_eq_singleton (of_isEntryName h).2
  have hbehind : ∀ before : List Char, stackOf rooted (before ++ '/' :: name.toList) =
      name.toList :: stackOf rooted before := by
    intro before
    rw [stackOf_append_slash, hsplit, List.foldl_cons, List.foldl_nil, pushPart_name h]
  have hempty : dir.isEmpty = false := by
    rw [← Bool.not_eq_true, String.isEmpty_iff]
    rintro rfl
    cases hdir
  rw [toList_join h, entryPrefix, hempty, Bool.false_or]
  split
  · next hlast =>
    obtain ⟨before, hbefore⟩ := List.getLast?_eq_some_iff.mp (beq_iff_eq.mp hlast)
    rw [hbefore, List.append_assoc, List.singleton_append, hbehind, stackOf_append_slash_nil]
  · rw [List.append_assoc, List.singleton_append, hbehind]

/-- The path that is made normal when a path is made absolute. -/
def seenFrom (cwd path : String) : String := if isAbsolute path then path else join cwd path

theorem absolute_eq (cwd path : String) : absolute cwd path = normalize (seenFrom cwd path) := by
  rw [absolute, seenFrom]
  split <;> rfl

theorem isAbsolute_seenFrom {cwd : String} (hcwd : isAbsolute cwd = true) (path : String) :
    isAbsolute (seenFrom cwd path) = true := by
  rw [seenFrom]
  split
  · next h => exact h
  · next h =>
    rw [isAbsolute, beq_iff_eq] at hcwd
    obtain ⟨rest, hrest⟩ := List.head?_eq_some_iff.mp hcwd
    rw [isAbsolute, toList_join_of_relative (Bool.eq_false_iff.mpr h), entryPrefix, hrest]
    split <;> rfl

/-- What stands before a name in a directory is empty or ends with a slash. -/
theorem entryPrefix_ends (dir : String) :
    entryPrefix dir = [] ∨ (entryPrefix dir).getLast? = some '/' := by
  rw [entryPrefix]
  split
  · next h =>
    rw [Bool.or_eq_true, String.isEmpty_iff, beq_iff_eq] at h
    rcases h with rfl | h
    · exact .inl rfl
    · exact .inr h
  · exact .inr List.getLast?_concat

/-- Seen from another directory, a name in a directory stands behind both. -/
theorem entryPrefix_join_of_relative {dir : String} (hdir : isAbsolute dir = false) (cwd : String) :
    entryPrefix (join cwd dir) = entryPrefix cwd ++ entryPrefix dir := by
  have hjoin := toList_join_of_relative hdir cwd
  by_cases hempty : dir = ""
  · subst hempty
    have hself : (join cwd "").toList = entryPrefix cwd := hjoin.trans (List.append_nil _)
    have hnone : entryPrefix "" = [] := rfl
    rw [hnone, List.append_nil, entryPrefix, hself, if_pos]
    rw [Bool.or_eq_true, beq_iff_eq, String.isEmpty_iff, ← String.toList_eq_nil_iff, hself]
    exact entryPrefix_ends cwd
  · have hne : dir.toList ≠ [] := fun hnil => hempty (String.toList_eq_nil_iff.mp hnil)
    have hdirNe : dir.isEmpty = false := by
      rwa [← Bool.not_eq_true, String.isEmpty_iff]
    have hjoinNe : (join cwd dir).isEmpty = false := by
      rw [← Bool.not_eq_true, String.isEmpty_iff, ← String.toList_eq_nil_iff, hjoin]
      exact fun hnil => hne (List.append_eq_nil_iff.mp hnil).2
    rw [entryPrefix, hjoinNe, hjoin, List.getLast?_append_of_ne_nil _ hne, entryPrefix.eq_1 dir,
      hdirNe]
    split
    · rfl
    · rw [List.append_assoc]

/-- An entry of a directory can be looked for from where the directory is looked for. -/
theorem join_join {dir name : String} (hname : isEntryName name = true)
    (hdir : isAbsolute dir = false) (cwd : String) :
    join cwd (join dir name) = join (join cwd dir) name := by
  have hjoin : isAbsolute (join dir name) = false := (isAbsolute_join hname dir).trans hdir
  rw [← String.toList_inj, toList_join_of_relative hjoin, toList_join hname, toList_join hname,
    entryPrefix_join_of_relative hdir, List.append_assoc]

theorem seenFrom_join {name : String} (h : isEntryName name = true) (cwd dir : String) :
    seenFrom cwd (join dir name) = join (seenFrom cwd dir) name := by
  rw [seenFrom, seenFrom, isAbsolute_join h]
  split
  · rfl
  · next hdir => exact join_join h (Bool.eq_false_iff.mpr hdir) cwd

/-- The proper parts of an absolute path below a directory are those of the directory and the names
on the way. -/
theorem properParts_absolute_below {cwd : String} (hcwd : isAbsolute cwd = true) {names : Location}
    (h : ∀ n ∈ names, isEntryName n = true) (dir : String) :
    properParts (absolute cwd (below dir names)) =
      properParts (absolute cwd dir) ++ names.map String.toList := by
  induction names generalizing dir with
  | nil => rw [below_nil, List.map_nil, List.append_nil]
  | cons name names ih =>
    rw [List.forall_mem_cons] at h
    have hdir := isAbsolute_seenFrom hcwd dir
    have hjoin : isAbsolute (join (seenFrom cwd dir) name) = true :=
      (isAbsolute_join h.1 _).trans hdir
    have hstep : properParts (absolute cwd (join dir name)) =
        properParts (absolute cwd dir) ++ [name.toList] := by
      rw [absolute_eq, absolute_eq, seenFrom_join h.1, properParts_normalize hjoin,
        properParts_normalize hdir, stackOf_join h.1 hdir, List.reverse_cons]
    rw [below_cons, ih h.2, hstep, List.append_assoc, List.map_cons, List.singleton_append]

theorem dropCommon_append (common rest : List (List Char)) :
    dropCommon common (common ++ rest) = ([], rest) := by
  induction common with
  | nil => cases rest <;> rfl
  | cons part common ih =>
    rw [List.cons_append, dropCommon, if_pos (beq_self_eq_true part), ih]

/-- Without a directory, names are put together with slashes only. -/
theorem toList_below_empty {names : Location} (hne : names ≠ [])
    (h : ∀ n ∈ names, isEntryName n = true) :
    (below "" names).toList = joinParts (names.map String.toList) := by
  obtain ⟨name, rest, rfl⟩ := List.exists_cons_of_ne_nil hne
  rw [toList_below h]
  rfl

/-- A path that has all parts of a directory, and names behind them, is spelled by the names. -/
theorem relative_of_properParts {cwd path dir : String} {names : Location} (hne : names ≠ [])
    (h : ∀ n ∈ names, isEntryName n = true)
    (hparts : properParts (absolute cwd path) =
      properParts (absolute cwd dir) ++ names.map String.toList) :
    relative cwd path dir = below "" names := by
  have hnames : (names.map String.toList).isEmpty = false := by
    simpa [List.isEmpty_iff] using hne
  rw [← String.toList_inj, toList_below_empty hne h, relative, hparts, dropCommon_append]
  simp only [List.map_nil, List.nil_append, hnames, Bool.false_eq_true, if_false,
    String.toList_ofList]

/-- Seen from a directory, what is below it is spelled by the names on the way. -/
theorem relative_below {cwd : String} (hcwd : isAbsolute cwd = true) {names : Location}
    (hne : names ≠ []) (h : ∀ n ∈ names, isEntryName n = true) (dir : String) :
    relative cwd (below dir names) dir = below "" names :=
  relative_of_properParts hne h (properParts_absolute_below hcwd h dir)

theorem joinParts_cons (p : List Char) {ps : List (List Char)} (h : ps ≠ []) :
    joinParts (p :: ps) = p ++ '/' :: joinParts ps := by
  rw [joinParts, List.intercalate_cons_of_ne_nil h, List.append_assoc, joinParts]
  rfl

theorem joinParts_append {ps qs : List (List Char)} (hps : ps ≠ []) (hqs : qs ≠ []) :
    joinParts (ps ++ qs) = joinParts ps ++ '/' :: joinParts qs := by
  induction ps with
  | nil => exact absurd rfl hps
  | cons p ps ih =>
    rw [List.cons_append, joinParts_cons p (List.append_ne_nil_of_right_ne_nil ps hqs)]
    cases ps with
    | nil => simp [joinParts]
    | cons next ps =>
      rw [ih (List.cons_ne_nil _ _), joinParts_cons p (List.cons_ne_nil _ _), List.append_assoc,
        List.cons_append]

theorem mem_joinParts {ps : List (List Char)} {c : Char} (h : c ∈ joinParts ps) :
    c = '/' ∨ ∃ p ∈ ps, c ∈ p := by
  induction ps with
  | nil => cases h
  | cons p ps ih =>
    cases ps with
    | nil => exact .inr ⟨p, List.mem_cons_self, by simpa [joinParts] using h⟩
    | cons next ps =>
      rw [joinParts_cons p (List.cons_ne_nil _ _), List.mem_append, List.mem_cons] at h
      rcases h with h | h | h
      · exact .inr ⟨p, List.mem_cons_self, h⟩
      · exact .inl h
      · rcases ih h with h | ⟨q, hq, h⟩
        · exact .inl h
        · exact .inr ⟨q, List.mem_cons_of_mem _ hq, h⟩

/-- Names that lead to something below something else are spelled behind it. -/
theorem below_empty_append {names rest : Location} (hne : names ≠ []) (hrest : rest ≠ [])
    (h : ∀ n ∈ names ++ rest, isEntryName n = true) :
    below "" (names ++ rest) = below "" names ++ ("/" ++ below "" rest) := by
  obtain ⟨hnames, hrests⟩ := List.forall_mem_append.mp h
  rw [← String.toList_inj, String.toList_append, String.toList_append,
    toList_below_empty (List.append_ne_nil_of_left_ne_nil hne _) h, toList_below_empty hne hnames,
    toList_below_empty hrest hrests, List.map_append,
    joinParts_append (by simpa using hne) (by simpa using hrest)]
  rfl

/-- A character of a spelling is a slash or in one of the names. -/
theorem mem_below_empty {names : Location} (h : ∀ n ∈ names, isEntryName n = true) {c : Char}
    (hc : c ∈ (below "" names).toList) : c = '/' ∨ ∃ n ∈ names, c ∈ n.toList := by
  cases names with
  | nil => cases hc
  | cons name names =>
    rw [toList_below_empty (List.cons_ne_nil _ _) h] at hc
    rcases mem_joinParts hc with hslash | ⟨part, hpart, hc⟩
    · exact .inl hslash
    · obtain ⟨n, hn, rfl⟩ := List.mem_map.mp hpart
      exact .inr ⟨n, hn, hc⟩

/-- What is below a directory is found from it by its spelling. -/
theorem join_below_empty {names : Location} (hne : names ≠ [])
    (h : ∀ n ∈ names, isEntryName n = true) (dir : String) :
    join dir (below "" names) = below dir names := by
  obtain ⟨name, rest, rfl⟩ := List.exists_cons_of_ne_nil hne
  have hrelative : isAbsolute (below "" (name :: rest)) = false := isAbsolute_below h ""
  rw [← String.toList_inj, toList_join_of_relative hrelative, toList_below_empty hne h,
    toList_below h]

end FlagAudit.Path
