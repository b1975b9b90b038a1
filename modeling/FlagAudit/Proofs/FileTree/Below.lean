import FlagAudit.Proofs.FileTree.Alike
import FlagAudit.Proofs.Path.Relative

/-!
# Finding what is below a directory

A path that leads through a directory by the names of real entries, without a link, is walked to the
directory first and from there name by name. So what it leads to depends on the node of the directory
alone, and not on the rest of the tree (`find_below`).
-/

namespace FlagAudit.FileTree

variable {root : Node} {location : Location} {parts : List String}
  {jump : Location → List String → Except Cause Location}

/-! ### One part of a walk -/

/-- One part of a walk ends it, or leads to a location, or to a link whose target is put before the
parts that follow. Which of these it is does not depend on the parts that follow. -/
theorem walkParts_cons_cases (root : Node) (location : Location) (part : String) :
    (∃ c, (c = .missingFile ∨ c = .notDirectory ∨ c = .refused) ∧
      ∀ jump rest, walkParts root true jump location (part :: rest) = .error c) ∨
    (∃ next, ∀ jump rest, walkParts root true jump location (part :: rest) =
      walkParts root true jump next rest) ∨
    ∃ start target, ∀ jump rest, walkParts root true jump location (part :: rest) =
      jump start (target ++ rest) := by
  simp only [walkParts, Bool.not_true, Bool.and_false, Bool.false_eq_true, if_false]
  split
  · split
    · exact .inr (.inl ⟨_, fun _ _ => rfl⟩)
    split
    · exact .inr (.inl ⟨_, fun _ _ => rfl⟩)
    split
    · exact .inl ⟨_, .inr (.inr rfl), fun _ _ => rfl⟩
    split
    · exact .inl ⟨_, .inl rfl, fun _ _ => rfl⟩
    · exact .inr (.inr ⟨_, _, fun _ _ => rfl⟩)
    · exact .inr (.inl ⟨_, fun _ _ => rfl⟩)
  · exact .inl ⟨_, .inr (.inl rfl), fun _ _ => rfl⟩

/-! ### Walks along more parts -/

/-- What follows a walk is walked from where it has led to. -/
theorem walkParts_append {rest : List String} {there : Location} {result : Except Cause Location}
    (hrest : walkParts root true jump there rest = result)
    (hjump : ∀ location parts, jump location parts = .ok there →
      jump location (parts ++ rest) = result)
    (h : walkParts root true jump location parts = .ok there) :
    walkParts root true jump location (parts ++ rest) = result := by
  -- A link does not make the parts fewer, but the links that may be followed: `hjump` is about those.
  induction parts generalizing location with
  | nil =>
    rw [walkParts] at h
    cases h
    exact hrest
  | cons part parts ih =>
    rw [List.cons_append]
    rcases walkParts_cons_cases root location part with ⟨c, -, hpart⟩ | ⟨next, hpart⟩ |
      ⟨start, target, hpart⟩
    · rw [hpart] at h
      cases h
    · rw [hpart] at h ⊢
      exact ih h
    · rw [hpart] at h ⊢
      rw [← List.append_assoc]
      exact hjump _ _ h

theorem walk_append {links : Nat} {rest : List String} {there : Location}
    {result : Except Cause Location}
    (hrest : ∀ jump, walkParts root true jump there rest = result)
    (h : walk root true links location parts = .ok there) :
    walk root true links location (parts ++ rest) = result := by
  induction links generalizing location parts with
  | zero => exact walkParts_append (hrest _) (fun _ _ hjump => nomatch hjump) h
  | succ links ih => exact walkParts_append (hrest _) (fun _ _ hjump => ih hjump) h

/-- A slash at the end leads to nothing else. -/
theorem walkParts_of_append_empty {there : Location}
    (hjump : ∀ location parts, jump location (parts ++ [""]) = .ok there →
      jump location parts = .ok there)
    (h : walkParts root true jump location (parts ++ [""]) = .ok there) :
    walkParts root true jump location parts = .ok there := by
  induction parts generalizing location with
  | nil =>
    rw [List.nil_append, walkParts] at h
    split at h
    · exact h
    · cases h
  | cons part parts ih =>
    rw [List.cons_append] at h
    rcases walkParts_cons_cases root location part with ⟨c, -, hpart⟩ | ⟨next, hpart⟩ |
      ⟨start, target, hpart⟩
    · rw [hpart] at h
      cases h
    · rw [hpart] at h ⊢
      exact ih h
    · rw [hpart, ← List.append_assoc] at h
      rw [hpart]
      exact hjump _ _ h

theorem walk_of_append_empty {links : Nat} {there : Location}
    (h : walk root true links location (parts ++ [""]) = .ok there) :
    walk root true links location parts = .ok there := by
  induction links generalizing location parts with
  | zero => exact walkParts_of_append_empty (fun _ _ hjump => nomatch hjump) h
  | succ links ih => exact walkParts_of_append_empty (fun _ _ hjump => ih hjump) h

/-! ### The names of real entries -/

theorem at?_append (node : Node) (location rest : Location) :
    node.at? (location ++ rest) = (node.at? location).bind (·.at? rest) := by
  induction location generalizing node with
  | nil => rw [List.nil_append, Node.at?_nil, Option.bind_some]
  | cons name location ih =>
    rw [List.cons_append, Node.at?_cons, Node.at?_cons]
    cases node.entries.lookup name with
    | none => rfl
    | some child => exact ih child

/-- Whether one of some names has more bytes than the name of an entry may have. -/
def anyTooLong (names : Location) : Bool := names.any fun name => decide (nameLimit < name.utf8ByteSize)

/-- A walk enters what is under the name of an entry that is no link, unless the name is too long. -/
theorem walkParts_name {name : String} {child : Node} {node : Node}
    (hnode : root.at? location = some node) (hname : isEntryName name = true)
    (hchild : node.entries.lookup name = some child) (hlink : ∀ target, child ≠ .link target)
    (jump : Location → List String → Except Cause Location) (rest : List String) :
    walkParts root true jump location (name :: rest) =
      if nameLimit < name.utf8ByteSize then .error .refused
      else walkParts root true jump (location ++ [name]) rest := by
  simp only [isEntryName, Bool.and_eq_true, bne_iff_ne, ne_eq] at hname
  cases node with
  | directory entries =>
    rw [walkParts, hnode]
    simp only [beq_iff_eq, Bool.or_eq_true, hname.1.1.1.1, hname.1.1.1.2, hname.1.1.2, or_self,
      if_false, show entries.lookup name = some child from hchild]
  | _ => cases hchild

/-- From a directory, the names on the way to a file are walked one by one. -/
theorem walkParts_names {node : Node} {names : Location} {content : List UInt8}
    (hnode : root.at? location = some node) (hfile : node.at? names = some (.file content))
    (hnames : ∀ n ∈ names, isEntryName n = true)
    (jump : Location → List String → Except Cause Location) :
    walkParts root true jump location names =
      if anyTooLong names then .error .refused else .ok (location ++ names) := by
  induction names generalizing location node with
  | nil =>
    rw [walkParts, List.append_nil]
    rfl
  | cons name rest ih =>
    rw [List.forall_mem_cons] at hnames
    rw [Node.at?_cons] at hfile
    obtain ⟨child, hchild, hbelow⟩ := Option.bind_eq_some_iff.mp hfile
    have hlink : ∀ target, child ≠ .link target := by
      rintro target rfl
      cases rest <;> simp [Node.at?_cons, Node.entries] at hbelow
    have hthere : root.at? (location ++ [name]) = some child := by
      rw [at?_append, hnode, Option.bind_some, Node.at?_cons, hchild, Option.bind_some, Node.at?_nil]
    rw [walkParts_name hnode hnames.1 hchild hlink, ih hthere hbelow hnames.2, anyTooLong, anyTooLong,
      List.any_cons, List.append_assoc, List.singleton_append]
    by_cases hlong : nameLimit < name.utf8ByteSize <;> simp [hlong]

/-! ### Paths below a directory -/

/-- A path below a directory is seen from the working directory as the directory is. -/
theorem join_below {names : Location} (h : ∀ n ∈ names, isEntryName n = true) (cwd dir : String) :
    Path.join cwd (Path.below dir names) = Path.below (Path.join cwd dir) names := by
  induction names generalizing dir with
  | nil => rfl
  | cons name rest ih =>
    rw [List.forall_mem_cons] at h
    have hstep : Path.join cwd (Path.join dir name) = Path.join (Path.join cwd dir) name := by
      cases hdir : Path.isAbsolute dir with
      | false => exact Path.join_join h.1 hdir cwd
      | true =>
        rw [Path.join, Path.isAbsolute_join h.1, hdir, if_pos rfl, Path.join.eq_1 cwd dir, hdir,
          if_pos rfl]
    rw [Path.below_cons, ih h.2, hstep, Path.below_cons]

/-- The parts of a path below a directory are those of the directory, without a last one that is empty,
and the names. -/
theorem partsOf_below {dir : String} (hdir : dir ≠ "") {names : Location} (hne : names ≠ [])
    (h : ∀ n ∈ names, isEntryName n = true) :
    ∃ before, (partsOf dir = before ∨ partsOf dir = before ++ [""]) ∧
      partsOf (Path.below dir names) = before ++ names := by
  have hsplit : (Path.joinParts (names.map String.toList)).splitOn '/' = names.map String.toList := by
    refine List.splitOn_intercalate '/' (fun part hpart => ?_) (by simpa using hne)
    obtain ⟨n, hn, rfl⟩ := List.mem_map.mp hpart
    exact (Path.of_isEntryName (h n hn)).2
  have hbehind : ∀ front : List Char, (Path.below dir names).toList =
      front ++ '/' :: Path.joinParts (names.map String.toList) →
      partsOf (Path.below dir names) = (front.splitOn '/').map String.ofList ++ names := by
    intro front hfront
    rw [partsOf, Path.parts, hfront, List.splitOn_append_cons_self, hsplit, List.map_append,
      List.map_map]
    simp
  obtain ⟨name, rest, rfl⟩ := List.exists_cons_of_ne_nil hne
  have htext := Path.toList_below h dir
  have hempty : dir.isEmpty = false := by
    rwa [← Bool.not_eq_true, String.isEmpty_iff]
  rw [Path.entryPrefix, hempty, Bool.false_or] at htext
  split at htext
  · next hlast =>
    obtain ⟨front, hfront⟩ := List.getLast?_eq_some_iff.mp (beq_iff_eq.mp hlast)
    rw [hfront, List.append_assoc, List.singleton_append] at htext
    refine ⟨_, .inr ?_, hbehind front htext⟩
    rw [partsOf, Path.parts, hfront, List.splitOn_append_cons_self, List.splitOn_nil, List.map_append]
    rfl
  · rw [List.append_assoc, List.singleton_append] at htext
    exact ⟨_, .inl rfl, hbehind _ htext⟩

/-- A path below a directory has no null character if the directory has none. -/
theorem null_not_mem_below {dir : String} (hdir : '\x00' ∉ dir.toList) {names : Location}
    (h : ∀ n ∈ names, isEntryName n = true) : '\x00' ∉ (Path.below dir names).toList := by
  induction names generalizing dir with
  | nil => exact hdir
  | cons name rest ih =>
    rw [List.forall_mem_cons] at h
    rw [Path.below_cons]
    refine ih ?_ h.2
    have hname : '\x00' ∉ name.toList := by
      have hentry := h.1
      simp only [isEntryName, Bool.and_eq_true, Bool.not_eq_true', ← Bool.not_eq_true,
        List.contains_iff_mem] at hentry
      exact hentry.2
    have hfront : '\x00' ∉ Path.entryPrefix dir := by
      rw [Path.entryPrefix]
      split
      · exact hdir
      · simpa using hdir
    rw [Path.toList_join h.1, List.mem_append, not_or]
    exact ⟨hfront, hname⟩

theorem join_ne_empty {path : String} (h : path ≠ "") (dir : String) : Path.join dir path ≠ "" := by
  rw [Path.join]
  split
  · exact h
  · split <;> simp [h]

theorem below_ne_empty {dir : String} (hdir : dir ≠ "") {names : Location}
    (h : ∀ n ∈ names, isEntryName n = true) : Path.below dir names ≠ "" := by
  induction names generalizing dir with
  | nil => exact hdir
  | cons name rest ih =>
    rw [List.forall_mem_cons] at h
    have hname : name ≠ "" := by
      rintro rfl
      exact (Path.of_isEntryName h.1).1 rfl
    exact ih (join_ne_empty hname dir) h.2

/-- A path that leads to a node can be walked. -/
theorem locate_of_find {t : FileTree} {path : String} {node : Node} (h : t.find path = .ok node) :
    path ≠ "" ∧ '\x00' ∉ path.toList ∧ ∃ location,
      walk t.root true linkLimit [] (partsOf (Path.join t.cwd path)) = .ok location ∧
      t.root.at? location = some node := by
  rw [find_eq] at h
  cases hlocate : t.locate true path with
  | error c =>
    rw [hlocate] at h
    cases h
  | ok location =>
    rw [hlocate] at h
    have hnode : t.root.at? location = some node := by
      cases hat : t.root.at? location with
      | none => simp [Except.bind, hat] at h
      | some found => simpa [Except.bind, hat] using h
    rw [locate] at hlocate
    split at hlocate
    · cases hlocate
    split at hlocate
    · cases hlocate
    split at hlocate
    · cases hlocate
    · next hempty hnull _ => exact ⟨by simpa using hempty, by simpa using hnull, location, hlocate, hnode⟩

/-- A path by real entries below a directory leads to the file that is there in the directory, unless
the path or one of the names is too long. -/
theorem find_below {t : FileTree} {dir : String} {node : Node} {names : Location}
    {content : List UInt8} (h : t.find dir = .ok node) (hne : names ≠ [])
    (hfile : node.at? names = some (.file content)) :
    t.find (Path.below dir names) =
      if pathLimit < (Path.below dir names).utf8ByteSize || anyTooLong names then .error .refused
      else .ok (.file content) := by
  obtain ⟨hempty, hnull, location, hwalk, hnode⟩ := locate_of_find h
  have hnames := Node.isEntryName_of_at? (isProper_of_find h) hfile
  have hbelow : walk t.root true linkLimit [] (partsOf (Path.join t.cwd (Path.below dir names))) =
      if anyTooLong names then .error .refused else .ok (location ++ names) := by
    obtain ⟨before, hdir, hparts⟩ := partsOf_below (join_ne_empty hempty t.cwd) hne hnames
    have hbefore : walk t.root true linkLimit [] before = .ok location := by
      rcases hdir with hdir | hdir
      · rwa [hdir] at hwalk
      · rw [hdir] at hwalk
        exact walk_of_append_empty hwalk
    rw [join_below hnames, hparts]
    exact walk_append (walkParts_names hnode hfile hnames) hbefore
  have hlocate : t.locate true (Path.below dir names) =
      if pathLimit < (Path.below dir names).utf8ByteSize || anyTooLong names then .error .refused
      else .ok (location ++ names) := by
    have hnotEmpty : (Path.below dir names).isEmpty = false := by
      rw [← Bool.not_eq_true, String.isEmpty_iff]
      exact below_ne_empty hempty hnames
    have hnotNull : (Path.below dir names).toList.contains '\x00' = false := by
      simpa using null_not_mem_below hnull hnames
    rw [locate, hnotEmpty, hnotNull, hbelow]
    by_cases hlong : pathLimit < (Path.below dir names).utf8ByteSize <;> simp [hlong]
  rw [find_eq, hlocate]
  split
  · rfl
  · simp [Except.bind, at?_append, hnode, hfile]

end FlagAudit.FileTree
