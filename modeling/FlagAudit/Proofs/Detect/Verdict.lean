import FlagAudit.Proofs.Detect.EnvironmentReads
import FlagAudit.Proofs.Run

/-!
# Patterns that cannot be used

Whether a pattern can be used is found out anew for each file, but the file has no say in it. Patterns
are used one after the other, so the first one that cannot be used decides how the search of a text
fails, and what the patterns before it have found is lost. The failure concerns the file, except if
that pattern asks for a number that is too large.
-/

namespace FlagAudit.Detect

open Regex (CharNames)

variable {pattern : String} {patterns : List String} {content : List Char} {prefixes : List String}
  {file : String} {e : Failure}

section Patterns

variable [names : CharNames]

/-- A pattern can be used: it is well formed, and it has a group for the name. -/
def usable (pattern : String) : Bool :=
  match Regex.read names pattern.toList with
  | .ok p => 1 ≤ p.groupCount
  | .error _ => false

/-- A pattern asks for a number that is too large. -/
def overflows (pattern : String) : Bool :=
  match Regex.read names pattern.toList with
  | .error .repetitionTooLarge | .error .codeTooLarge => true
  | _ => false

/-- The first pattern that cannot be used asks for a number that is too large. -/
def overflowsFirst (patterns : List String) : Bool :=
  (patterns.find? fun pattern => !usable pattern).any overflows

/-! ### One pattern -/

theorem compile_of_usable (h : usable pattern = true) : ∃ p, ∀ file, compile pattern file = .ok p := by
  rw [usable] at h
  split at h
  · next p hread => exact ⟨p, compile_of_read hread (of_decide_eq_true h)⟩
  · cases h

theorem compile_of_fault {fault : Regex.Fault} (h : Regex.read names pattern.toList = .error fault)
    (file : String) : compile pattern file = .error (ofFault pattern file fault) := by
  rw [compile, h]

/-- A number that is too large is the same failure for each file. -/
theorem compile_of_overflows (h : overflows pattern = true) :
    ∃ text, ∀ file, compile pattern file = .error (.bare (.overflow text)) := by
  rw [overflows] at h
  split at h
  · next hread => exact ⟨_, compile_of_fault hread⟩
  · next hread => exact ⟨_, compile_of_fault hread⟩
  · cases h

/-- Whatever else is wrong with a pattern concerns the file. -/
theorem compile_of_not_overflows (h : usable pattern = false) (hnot : overflows pattern = false)
    (file : String) : ∃ e, compile pattern file = .error e ∧ e.IsFileError := by
  cases hread : Regex.read names pattern.toList with
  | ok p =>
    rw [usable, hread] at h
    rw [compile, hread]
    exact ⟨_, if_pos (Nat.lt_of_not_le (of_decide_eq_false h)), trivial⟩
  | error fault =>
    rw [overflows, hread] at hnot
    refine ⟨_, compile_of_fault hread file, ?_⟩
    cases fault with
    | malformed reason => exact trivial
    | repetitionTooLarge => cases hnot
    | codeTooLarge => cases hnot
    | flagConflict => exact .inr (.inr (.inr (.inr ⟨_, rfl⟩)))
    | tooManyDigits count => exact .inr (.inr (.inr (.inr ⟨_, rfl⟩)))

theorem referencesOf_of_usable (h : usable pattern = true) :
    ∃ found, referencesOf content prefixes file pattern = .ok found := by
  obtain ⟨p, hcompile⟩ := compile_of_usable h
  rw [referencesOf, hcompile]
  exact ⟨_, rfl⟩

theorem referencesOf_of_error (h : compile pattern file = .error e) :
    referencesOf content prefixes file pattern = .error e := by
  rw [referencesOf, h]
  rfl

/-! ### All patterns -/

theorem mapM_of_usable (h : ∀ pattern ∈ patterns, usable pattern = true) :
    ∃ found, patterns.mapM (referencesOf content prefixes file) = .ok found := by
  induction patterns with
  | nil => exact ⟨[], rfl⟩
  | cons pattern rest ih =>
    rw [List.forall_mem_cons] at h
    obtain ⟨first, hfirst⟩ := @referencesOf_of_usable pattern content prefixes file names h.1
    obtain ⟨others, hothers⟩ := ih h.2
    rw [List.mapM_cons, hfirst, hothers]
    exact ⟨_, rfl⟩

/-- Patterns that can be used find something, perhaps nothing. -/
theorem references_of_usable (h : ∀ pattern ∈ patterns, usable pattern = true) :
    ∃ found, references content patterns prefixes file = .ok found := by
  obtain ⟨found, hfound⟩ := @mapM_of_usable patterns content prefixes file names h
  rw [references, hfound]
  exact ⟨_, rfl⟩

/-- The first pattern that cannot be used decides, whatever comes before and behind it. -/
theorem references_of_error {before behind : List String}
    (hbefore : ∀ p ∈ before, usable p = true) (h : compile pattern file = .error e) :
    references content (before ++ pattern :: behind) prefixes file = .error e := by
  obtain ⟨found, hfound⟩ := @mapM_of_usable before content prefixes file names hbefore
  rw [references, List.mapM_append, hfound, List.mapM_cons, referencesOf_of_error h]
  rfl

/-- The first pattern that cannot be used has only patterns before it that can. -/
theorem exists_before_of_find? (h : (patterns.find? fun p => !usable p) = some pattern) :
    usable pattern = false ∧ ∃ before behind, patterns = before ++ pattern :: behind ∧
      ∀ p ∈ before, usable p = true := by
  rw [List.find?_eq_some_iff_append] at h
  obtain ⟨hpattern, before, behind, rfl, hbefore⟩ := h
  exact ⟨by simpa using hpattern, before, behind, rfl, by simpa using hbefore⟩

/-- If the first pattern that cannot be used asks for a number that is too large, the search of each
text fails with this. -/
theorem references_of_overflowsFirst (h : overflowsFirst patterns = true) :
    ∃ text, ∀ content prefixes file,
      references content patterns prefixes file = .error (.bare (.overflow text)) := by
  rw [overflowsFirst, Option.any_eq_true] at h
  obtain ⟨pattern, hfind, hoverflows⟩ := h
  obtain ⟨-, before, behind, rfl, hbefore⟩ := exists_before_of_find? hfind
  obtain ⟨text, htext⟩ := compile_of_overflows hoverflows
  exact ⟨text, fun content prefixes file => references_of_error hbefore (htext file)⟩

/-- Otherwise a text is searched for all patterns, or the failure concerns its file. -/
theorem isFileError_of_references (h : overflowsFirst patterns = false)
    (he : references content patterns prefixes file = .error e) : e.IsFileError := by
  rw [overflowsFirst] at h
  cases hfind : patterns.find? fun pattern => !usable pattern with
  | none =>
    rw [List.find?_eq_none] at hfind
    obtain ⟨found, hfound⟩ :=
      @references_of_usable patterns content prefixes file names (by simpa using hfind)
    rw [hfound] at he
    cases he
  | some pattern =>
    rw [hfind] at h
    obtain ⟨hunusable, before, behind, rfl, hbefore⟩ := exists_before_of_find? hfind
    obtain ⟨e', hcompile, he'⟩ := compile_of_not_overflows hunusable h file
    rw [references_of_error hbefore hcompile] at he
    cases he
    exact he'

end Patterns

/-! ### Where findings are said to be -/

theorem file_of_referenceAt {admits : List Char → Bool} {hit : Text.Hit Regex.State} {r : Reference}
    (h : referenceAt content file pattern admits hit = some r) : r.file = file := by
  rw [referenceAt] at h
  split at h
  · cases h
  · cases h
  · split at h
    · cases h
      rfl
    · cases h

theorem file_of_referencesOf [CharNames] {found : List Reference}
    (h : referencesOf content prefixes file pattern = .ok found) : ∀ r ∈ found, r.file = file := by
  rw [referencesOf] at h
  cases hcompile : compile pattern file with
  | error e =>
    rw [hcompile] at h
    cases h
  | ok p =>
    rw [hcompile] at h
    cases h
    intro r hr
    obtain ⟨hit, -, hat⟩ := List.mem_filterMap.mp hr
    exact file_of_referenceAt hat

/-- What is found in a text is said to be in its file. -/
theorem file_of_references [CharNames] {found : List Reference}
    (h : references content patterns prefixes file = .ok found) : ∀ r ∈ found, r.file = file := by
  induction patterns generalizing found with
  | nil =>
    cases h
    exact List.forall_mem_nil _
  | cons pattern rest ih =>
    rw [references, List.mapM_cons] at h
    cases hfirst : referencesOf content prefixes file pattern with
    | error e =>
      rw [hfirst] at h
      cases h
    | ok first =>
      cases hrest : rest.mapM (referencesOf content prefixes file) with
      | error e =>
        rw [hfirst, hrest] at h
        cases h
      | ok others =>
        rw [hfirst, hrest] at h
        cases h
        rw [List.flatten_cons, List.forall_mem_append]
        exact ⟨file_of_referencesOf hfirst, ih (by rw [references, hrest]; rfl)⟩

theorem file_of_definitions (content : List Char) (prefixes : List String) (file : String) :
    ∀ d ∈ definitions content prefixes file, d.file = file := by
  intro d hd
  rw [definitions_eq_map, List.mem_map] at hd
  obtain ⟨start, -, rfl⟩ := hd
  rfl

end FlagAudit.Detect
