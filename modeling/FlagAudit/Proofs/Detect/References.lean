import FlagAudit.Proofs.Detect.Verdict
import FlagAudit.Proofs.Regex.Extent

/-!
# Which references are found

Each pattern is searched for on its own, and what is found of all of them comes in the order of the
patterns. A reference stands for a match of its pattern whose first group has kept a name; the prefixes
only choose among the names of patterns that read the environment. A pattern that cannot be used ends the
search with its own failure (`references_by_pattern`).
-/

namespace FlagAudit.Detect

open Regex (CharNames)
open Text (Cursor Hit)

variable {content name : List Char} {pattern file : String} {patterns prefixes more : List String}
  {p : Pattern} {i : Nat}

/-! ### Matches that keep a name -/

/-- A pattern matches a text at an offset, and a name is what its first group has kept: a piece of the text
that is not empty. The match is a piece of the text as well. -/
def NamesAt (p : Pattern) (content : List Char) (i : Nat) (name : List Char) : Prop :=
  ∃ nonempty c n t start stop, c.Within content ∧ c.offset = i ∧
    p.reader nonempty c = some (n, t) ∧ t.kept? 1 = some (start, stop) ∧
    i + n ≤ content.length ∧ start < stop ∧ stop ≤ content.length ∧
    name = (content.drop start).take (stop - start)

/-- The prefixes admit a name that a pattern has found: it has one of them, if the text of the pattern has
one of the marks of those that read the environment. -/
def Admitted (prefixes : List String) (pattern : String) (name : List Char) : Prop :=
  (∃ mark ∈ environmentMarks, mark.toList <:+: pattern.toList) → ∃ q ∈ prefixes, q.toList <+: name

instance (prefixes : List String) (pattern : String) (name : List Char) :
    Decidable (Admitted prefixes pattern name) :=
  inferInstanceAs (Decidable (_ → _))

/-- The reference for a name that is found at an offset. -/
def referenceOf (content : List Char) (file pattern : String) (site : Nat × List Char) : Reference :=
  let p := Text.Position.ofOffset content site.1
  ⟨String.ofList site.2, file, p.line, p.column, pattern⟩

theorem readsEnvironment_iff :
    readsEnvironment pattern = true ↔ ∃ mark ∈ environmentMarks, mark.toList <:+: pattern.toList := by
  simp only [readsEnvironment, List.any_eq_true, Text.occursIn_iff, List.IsInfix,
    eq_comm (a := pattern.toList)]

theorem admits_iff :
    (!readsEnvironment pattern || startsWithAny prefixes name) = true ↔
      Admitted prefixes pattern name := by
  rw [Admitted, ← readsEnvironment_iff, Bool.or_eq_true, Bool.not_eq_true', startsWithAny_iff]
  cases readsEnvironment pattern <;> simp

/-- More prefixes admit more names. -/
theorem Admitted.mono (h : Admitted prefixes pattern name) (hmore : prefixes ⊆ more) :
    Admitted more pattern name := by
  intro hmark
  obtain ⟨q, hq, hbegins⟩ := h hmark
  exact ⟨q, hmore hq, hbegins⟩

/-- The name that an occurrence has kept, with the offset of the occurrence, if the name is admitted. -/
def siteOf (prefixes : List String) (pattern : String) (hit : Hit Regex.State) :
    Option (Nat × List Char) :=
  (hit.value.keptText? 1).bind fun name =>
    if name ≠ [] ∧ Admitted prefixes pattern name then some (hit.offset, name) else none

theorem siteOf_eq_some_iff {hit : Hit Regex.State} :
    siteOf prefixes pattern hit = some (i, name) ↔
      hit.value.keptText? 1 = some name ∧ hit.offset = i ∧ name ≠ [] ∧
        Admitted prefixes pattern name := by
  simp only [siteOf, Option.bind_eq_some_iff, Option.ite_none_right_eq_some, Option.some.injEq,
    Prod.mk.injEq]
  constructor
  · rintro ⟨_, htext, ⟨hne, hadmitted⟩, hoffset, rfl⟩
    exact ⟨htext, hoffset, hne, hadmitted⟩
  · rintro ⟨htext, hoffset, hne, hadmitted⟩
    exact ⟨name, htext, ⟨hne, hadmitted⟩, hoffset, rfl⟩

/-- A reference is made of the offset and the name of an occurrence. -/
theorem referenceAt_eq (hit : Hit Regex.State) :
    referenceAt content file pattern
        (fun name => !readsEnvironment pattern || startsWithAny prefixes name) hit =
      (siteOf prefixes pattern hit).map (referenceOf content file pattern) := by
  rw [referenceAt, siteOf]
  cases hit.value.keptText? 1 with
  | none => rfl
  | some name =>
    cases name with
    | nil => rfl
    | cons x name =>
      simp only [admits_iff, Option.bind_some, ne_eq, reduceCtorEq, not_false_eq_true, true_and]
      split <;> rfl

/-- What an occurrence has kept is a piece of the text. -/
theorem namesAt_of_hit {hit : Hit Regex.State} (hhit : hit ∈ p.occurrences content)
    (htext : hit.value.keptText? 1 = some name) (hne : name ≠ []) :
    NamesAt p content hit.offset name := by
  obtain ⟨nonempty, c, hc, hoffset, hread⟩ :=
    Text.exists_read_of_mem_hitsFrom (Cursor.within_start content) hhit
  obtain ⟨hin, hend⟩ := Pattern.in_of_reader hc hread
  simp only [Regex.State.keptText?, Option.bind_eq_bind, Option.bind_eq_some_iff, Option.pure_def,
    Option.some.injEq, Prod.exists, hin.cursor.text] at htext
  obtain ⟨start, stop, hkept, rfl⟩ := htext
  refine ⟨nonempty, c, _, _, start, stop, hc, hoffset, hread, hkept, ?_, ?_, hin.stop_le hkept, rfl⟩
  · rw [← hoffset, ← hend]
    exact hin.cursor.offset_le
  · by_contra hle
    exact hne (by rw [Nat.sub_eq_zero_of_le (Nat.le_of_not_lt hle), List.take_zero])

/-! ### One pattern -/

/-- What is found of one pattern in a text: names, and the offsets where the pattern matches. -/
structure Finds (content : List Char) (prefixes : List String) (pattern : String) (p : Pattern)
    (sites : List (Nat × List Char)) : Prop where
  /-- The matches. -/
  namesAt : ∀ i name, (i, name) ∈ sites → NamesAt p content i name
  /-- What the names start with. -/
  admitted : ∀ i name, (i, name) ∈ sites → Admitted prefixes pattern name
  /-- The order of the offsets. -/
  ordered : sites.Pairwise fun a b => a.1 ≤ b.1
  /-- No name that the search comes across and that is admitted is left out. -/
  all : ∀ hit ∈ p.occurrences content, ∀ name, hit.value.keptText? 1 = some name → name ≠ [] →
    Admitted prefixes pattern name → (hit.offset, name) ∈ sites

/-- The admitted names that are found of a pattern, and where it matches. -/
def sitesOf (content : List Char) (prefixes : List String) (pattern : String) (p : Pattern) :
    List (Nat × List Char) :=
  (p.occurrences content).filterMap (siteOf prefixes pattern)

theorem finds_sitesOf (content : List Char) (prefixes : List String) (pattern : String)
    (p : Pattern) : Finds content prefixes pattern p (sitesOf content prefixes pattern p) where
  namesAt i name h := by
    obtain ⟨hit, hhit, hsite⟩ := List.mem_filterMap.mp h
    obtain ⟨htext, rfl, hne, -⟩ := siteOf_eq_some_iff.mp hsite
    exact namesAt_of_hit hhit htext hne
  admitted i name h := by
    obtain ⟨hit, -, hsite⟩ := List.mem_filterMap.mp h
    exact (siteOf_eq_some_iff.mp hsite).2.2.2
  ordered := by
    refine List.pairwise_filterMap.mpr ?_
    refine (Text.pairwise_offset_hitsFrom _ _ _ _).imp fun hle a ha b hb => ?_
    rw [← (siteOf_eq_some_iff.mp ha).2.1, ← (siteOf_eq_some_iff.mp hb).2.1]
    exact hle
  all hit hhit name htext hne hadmitted :=
    List.mem_filterMap.mpr ⟨hit, hhit, siteOf_eq_some_iff.mpr ⟨htext, rfl, hne, hadmitted⟩⟩

/-- Of the names that more prefixes admit, fewer prefixes leave those that they admit. -/
theorem sitesOf_of_subset (content : List Char) (pattern : String) (p : Pattern)
    (hmore : prefixes ⊆ more) :
    sitesOf content prefixes pattern p =
      (sitesOf content more pattern p).filter fun site => Admitted prefixes pattern site.2 := by
  rw [sitesOf, sitesOf, List.filter_filterMap]
  refine List.filterMap_congr fun hit _ => Option.ext fun ⟨i, name⟩ => ?_
  rw [Option.filter_eq_some_iff, siteOf_eq_some_iff, siteOf_eq_some_iff, decide_eq_true_eq]
  constructor
  · rintro ⟨htext, hoffset, hne, hadmitted⟩
    exact ⟨⟨htext, hoffset, hne, hadmitted.mono hmore⟩, hadmitted⟩
  · rintro ⟨⟨htext, hoffset, hne, -⟩, hadmitted⟩
    exact ⟨htext, hoffset, hne, hadmitted⟩

section Patterns

variable [CharNames]

/-- The references that a pattern finds. -/
theorem referencesOf_eq (h : compile pattern file = .ok p) (content : List Char)
    (prefixes : List String) :
    referencesOf content prefixes file pattern =
      .ok ((sitesOf content prefixes pattern p).map (referenceOf content file pattern)) := by
  rw [referencesOf, h, sitesOf, List.map_filterMap]
  simp only [← referenceAt_eq]
  rfl

/-! ### All patterns -/

/-- What a pattern finds, if it can be used. -/
def foundBy (content : List Char) (prefixes : List String) (file pattern : String) : List Reference :=
  match compile pattern file with
  | .ok p => (sitesOf content prefixes pattern p).map (referenceOf content file pattern)
  | .error _ => []

theorem foundBy_eq (h : compile pattern file = .ok p) (content : List Char) (prefixes : List String) :
    foundBy content prefixes file pattern =
      (sitesOf content prefixes pattern p).map (referenceOf content file pattern) := by
  rw [foundBy, h]

/-- What patterns that can be used find comes in their order. -/
theorem references_eq_flatMap (h : ∀ pattern ∈ patterns, usable pattern = true) (content : List Char)
    (prefixes : List String) (file : String) :
    references content patterns prefixes file =
      .ok (patterns.flatMap (foundBy content prefixes file)) := by
  have hmap : patterns.mapM (referencesOf content prefixes file) =
      .ok (patterns.map (foundBy content prefixes file)) := by
    induction patterns with
    | nil => rfl
    | cons pattern rest ih =>
      rw [List.forall_mem_cons] at h
      obtain ⟨p, hcompile⟩ := compile_of_usable h.1
      rw [List.mapM_cons, referencesOf_eq (hcompile file), ih h.2, List.map_cons,
        foundBy_eq (hcompile file)]
      rfl
  rw [references, hmap]
  rfl

/-- Fewer prefixes leave the references whose names they admit. -/
theorem foundBy_of_subset (content : List Char) (file pattern : String) (hmore : prefixes ⊆ more) :
    foundBy content prefixes file pattern =
      (foundBy content more file pattern).filter fun r => Admitted prefixes r.pattern r.name.toList := by
  rw [foundBy, foundBy]
  split
  · rw [sitesOf_of_subset content pattern _ hmore, List.filter_map]
    congr 1
    refine List.filter_congr fun site _ => ?_
    simp [referenceOf]
  · rfl

/-- A pattern that cannot be used has a failure of its own. -/
theorem exists_error_of_not_usable (h : usable pattern = false) (file : String) :
    ∃ e, compile pattern file = .error e := by
  rw [compile]
  rw [usable] at h
  split at h
  · next p hread =>
    rw [hread]
    exact ⟨_, if_pos (Nat.lt_of_not_le (of_decide_eq_false h))⟩
  · next fault hread =>
    rw [hread]
    exact ⟨_, rfl⟩

/-- If all patterns can be used, the references are what each pattern finds alone, in the order of the
patterns; and with more prefixes there may be more of them, but those that the prefixes do not admit can
be left out again. If some pattern cannot be used, the first such pattern decides how the search fails,
whatever the text is and whatever the patterns before it find. -/
theorem references_by_pattern (content : List Char) (patterns prefixes : List String) (file : String) :
    ((∀ pattern ∈ patterns, usable pattern = true) →
      ∃ part : String → List Reference,
        references content patterns prefixes file = .ok (patterns.flatMap part) ∧
        (∀ pattern ∈ patterns,
          references content [pattern] prefixes file = .ok (part pattern) ∧
          ∃ p sites, compile pattern file = .ok p ∧
            part pattern = sites.map (referenceOf content file pattern) ∧
            Finds content prefixes pattern p sites) ∧
        ∀ more, prefixes ⊆ more → ∃ found,
          references content patterns more file = .ok found ∧
          patterns.flatMap part = found.filter fun r => Admitted prefixes r.pattern r.name.toList) ∧
    ∀ before pattern behind, patterns = before ++ pattern :: behind →
      (∀ earlier ∈ before, usable earlier = true) → usable pattern = false →
        ∃ e, compile pattern file = .error e ∧ references content patterns prefixes file = .error e := by
  constructor
  · intro husable
    refine ⟨foundBy content prefixes file, references_eq_flatMap husable _ _ _, ?_, ?_⟩
    · intro pattern hpattern
      obtain ⟨p, hcompile⟩ := compile_of_usable (husable pattern hpattern)
      refine ⟨?_, p, _, hcompile file, foundBy_eq (hcompile file) _ _, finds_sitesOf _ _ _ _⟩
      rw [references_eq_flatMap (by simpa using husable pattern hpattern), List.flatMap_singleton]
    · intro more hmore
      refine ⟨_, references_eq_flatMap husable content more file, ?_⟩
      rw [List.filter_flatMap]
      exact List.flatMap_congr fun pattern _ => foundBy_of_subset content file pattern hmore
  · rintro before pattern behind rfl hbefore hpattern
    obtain ⟨e, hcompile⟩ := exists_error_of_not_usable hpattern file
    exact ⟨e, hcompile, references_of_error hbefore hcompile⟩

end Patterns

/-- A match may be empty and its name stand behind it, and a name that is not kept is no name. -/
example : references "ab".toList ["(?=(b))", "a(x)?"] [] "f" =
    .ok [⟨"b", "f", 1, 2, "(?=(b))"⟩] := by
  decide +kernel

/-- A pattern can call a character by name. -/
example : references "a1".toList ["(\\N\x7bDIGIT ONE\x7d)"] [] "f" =
    .ok [⟨"1", "f", 1, 2, "(\\N\x7bDIGIT ONE\x7d)"⟩] := by
  decide +kernel

end FlagAudit.Detect
