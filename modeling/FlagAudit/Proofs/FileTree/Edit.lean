import FlagAudit.Proofs.FileTree.Below
import FlagAudit.FileTree.Edit

/-!
# What a change of a tree leaves alone

A node that is put at a location, or taken away there, changes no file that is not at or below this
location.
-/

namespace FlagAudit.FileTree.Node

variable {node child : Node} {location names : Location} {content : List UInt8}

/-! ### At the location -/

theorem at?_directory_cons (entries : List (String × Node)) (name : String) (rest : Location) :
    (Node.directory entries).at? (name :: rest) = (entries.lookup name).bind (·.at? rest) :=
  at?_cons (.directory entries) name rest

theorem at?_put_self (child : Node) (location : Location) (node : Node) :
    (put child location node).at? location = some child := by
  induction location generalizing node with
  | nil => rw [put, at?_nil]
  | cons name rest ih =>
    rw [put, at?_directory_cons, lookup_setField_self, Option.bind_some, ih]

theorem lookup_filter_self (name : String) (entries : List (String × Node)) :
    (entries.filter (·.1 != name)).lookup name = none := by
  rw [List.lookup_eq_none_iff]
  intro e he
  have hne : (e.1 != name) = true := (List.mem_filter.mp he).2
  rwa [bne_comm] at hne

theorem lookup_filter_of_ne {name other : String} (h : other ≠ name)
    (entries : List (String × Node)) :
    (entries.filter (·.1 != name)).lookup other = entries.lookup other := by
  induction entries with
  | nil => rfl
  | cons e es ih =>
    obtain ⟨first, child⟩ := e
    by_cases hfirst : first = name
    · subst hfirst
      simp [List.lookup_cons, beq_false_of_ne h, ih]
    · simp [hfirst, List.lookup_cons, ih]

theorem at?_erase_self (h : location ≠ []) (node : Node) :
    (erase location node).at? location = none := by
  fun_induction erase location node with
  | case1 => exact absurd rfl h
  | case2 name node => rw [at?_directory_cons, lookup_filter_self, Option.bind_none]
  | case3 name rest node hrest below hbelow ih =>
    rw [at?_directory_cons, lookup_setField_self, Option.bind_some]
    exact ih fun hnil => hrest hnil
  | case4 name rest node hrest hnone => rw [at?_cons, hnone, Option.bind_none]

/-! ### Elsewhere -/

/-- Two nodes have the same files except at and below a location. -/
def SameOff (location : Location) (a b : Node) : Prop :=
  ∀ names content, ¬ location <+: names →
    (a.at? names = some (.file content) ↔ b.at? names = some (.file content))

/-- Directories have the same files off a location if they have so under its first name, and the same
entries under other names. -/
theorem sameOff_cons {name : String} {entries entries' : List (String × Node)} {a b : Node}
    (ha : entries.lookup name = some a) (hb : entries'.lookup name = some b)
    (h : SameOff location a b)
    (hother : ∀ other, other ≠ name → entries.lookup other = entries'.lookup other) :
    SameOff (name :: location) (.directory entries) (.directory entries') := by
  intro names content hnot
  cases names with
  | nil => simp
  | cons first rest =>
    rw [at?_directory_cons, at?_directory_cons]
    by_cases hfirst : first = name
    · subst hfirst
      rw [ha, hb, Option.bind_some, Option.bind_some]
      exact h rest content fun hprefix => hnot (List.cons_prefix_cons.mpr ⟨rfl, hprefix⟩)
    · rw [hother first hfirst]

/-- Directories whose entries differ under one name only have the same files elsewhere. -/
theorem sameOff_singleton {name : String} {entries entries' : List (String × Node)}
    (hother : ∀ other, other ≠ name → entries.lookup other = entries'.lookup other) :
    SameOff [name] (.directory entries) (.directory entries') := by
  intro names content hnot
  cases names with
  | nil => simp
  | cons first rest =>
    have hfirst : first ≠ name := by
      rintro rfl
      exact hnot (List.prefix_append [first] rest)
    rw [at?_directory_cons, at?_directory_cons, hother first hfirst]

/-- What is put into a directory changes no file elsewhere. -/
theorem sameOff_put {dir : Location} {name : String} {entries : List (String × Node)}
    (h : node.at? dir = some (.directory entries)) :
    SameOff (dir ++ [name]) node (put child (dir ++ [name]) node) := by
  induction dir generalizing node with
  | nil =>
    rw [at?_nil, Option.some.injEq] at h
    subst h
    exact sameOff_singleton fun other hne => (lookup_setField_of_ne hne _ _).symm
  | cons first rest ih =>
    rw [at?_cons] at h
    obtain ⟨below, hbelow, hrest⟩ := Option.bind_eq_some_iff.mp h
    cases node with
    | directory es =>
      rw [List.cons_append, put]
      refine sameOff_cons hbelow (lookup_setField_self _ _ _) ?_ fun other hne =>
        (lookup_setField_of_ne hne _ _).symm
      rw [hbelow]
      exact ih hrest
    | _ => cases hbelow

/-- What is taken out of a directory changes no file elsewhere. -/
theorem sameOff_erase {dir : Location} {name : String} {entries : List (String × Node)}
    (h : node.at? dir = some (.directory entries)) :
    SameOff (dir ++ [name]) node (erase (dir ++ [name]) node) := by
  induction dir generalizing node with
  | nil =>
    rw [at?_nil, Option.some.injEq] at h
    subst h
    exact sameOff_singleton fun other hne => (lookup_filter_of_ne hne _).symm
  | cons first rest ih =>
    rw [at?_cons] at h
    obtain ⟨below, hbelow, hrest⟩ := Option.bind_eq_some_iff.mp h
    cases node with
    | directory es =>
      rw [List.cons_append, erase, hbelow]
      · exact sameOff_cons hbelow (lookup_setField_self _ _ _) (ih hrest) fun other hne =>
          (lookup_setField_of_ne hne _ _).symm
      · simp
    | _ => cases hbelow

end FlagAudit.FileTree.Node
