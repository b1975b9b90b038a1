import Mathlib
import FlagAudit.Config.Basic
import FlagAudit.Proofs.Detect.Definitions
import FlagAudit.Proofs.Regex.Literal

/-!
# What the default patterns read

Each default pattern begins with a text of its own. The one for the environment goes on with upper-case
letters and low lines only, whereas the name of a definition can have digits as well. So of a name with
a digit only the part before its first digit is read.
-/

namespace FlagAudit.Detect

open Regex (CharNames behindText)
open Text (Cursor Hit)

variable {content name value : List Char} {prefixes : List String} {file : String}

/-! ### The default patterns -/

/-- The default pattern that reads environment variables. -/
def environmentPattern : String := "process\\.env\\.([A-Z_]+)"

/-- What a name stands behind where it is read from the environment. -/
def environmentText : List Char := "process.env.".toList

/-- One or more characters, kept as the first group. -/
def keptRun (what : Regex.Single) : Regex := .group 1 (.repeated (.single what) 1 none .most)

/-- What the default pattern for the environment searches for. -/
def environmentRead : Regex := behindText environmentText (keptRun initial)

/-- A pattern is well formed, has a group and begins with a text, whatever the names of characters are. -/
def Opens (pattern : String) (text : List Char) : Prop :=
  ∃ body, ∀ names, Regex.read names pattern.toList = .ok ⟨behindText text body, 1⟩

theorem read_environmentPattern (names : CharNames) :
    Regex.read names environmentPattern.toList = .ok ⟨environmentRead, 1⟩ := by
  cbv

/-- The letters that the names of other flags consist of. -/
def anyLetter : Regex.Single := .oneOf [.range 97 122, .range 65 90] false ⟨false, false⟩

/-- A quotation mark, or any other character. -/
def quote (negated : Bool) : Regex.Single := .oneOf [.code 39, .code 34] negated ⟨false, false⟩

/-- The default patterns are the one for the environment and others whose texts have an `f` or an
`i`. -/
theorem default_patterns : ∃ others, ({} : Config).patterns = environmentPattern :: others ∧
    ∀ pattern ∈ others, ∃ text, Opens pattern text ∧ ('f' ∈ text ∨ 'i' ∈ text) := by
  refine ⟨_, rfl, ?_⟩
  simp only [List.forall_mem_cons]
  refine ⟨⟨"featureFlags.".toList, ⟨keptRun anyLetter, fun names => ?_⟩, .inl (by decide)⟩,
    ⟨"flags.".toList, ⟨keptRun anyLetter, fun names => ?_⟩, .inl (by decide)⟩,
    ⟨"config.flags.".toList, ⟨keptRun anyLetter, fun names => ?_⟩, .inl (by decide)⟩,
    ⟨"isEnabled(".toList, ⟨.concat (.single (quote false)) (.concat (keptRun (quote true))
      (.concat (.single (quote false)) (.single (Regex.letter ')')))), fun names => ?_⟩, .inr (by decide)⟩,
    List.forall_mem_nil _⟩
  all_goals cbv

/-! ### Patterns that find nothing -/

theorem compile_of_read [names : CharNames] {pattern : String} {p : Pattern}
    (h : Regex.read names pattern.toList = .ok p) (hcount : 1 ≤ p.groupCount) (file : String) :
    compile pattern file = .ok p := by
  rw [compile, h]
  exact if_neg (Nat.not_lt_of_le hcount)

/-- A pattern finds nothing in a text that lacks a character of its own text. -/
theorem referencesOf_eq_nil [names : CharNames] {pattern : String} {text : List Char}
    (h : Opens pattern text) {x : Char} (hx : x ∈ text) (hnot : x ∉ content)
    (prefixes : List String) (file : String) :
    referencesOf content prefixes file pattern = .ok [] := by
  obtain ⟨body, hread⟩ := h
  rw [referencesOf, compile_of_read (hread names) (Nat.le_refl _)]
  simp only [bind, Except.bind, Pattern.occurrences_behindText_eq_nil hx hnot]
  rfl

/-- Patterns that find nothing add nothing to what the first one finds. -/
theorem references_cons_of_nil [CharNames] {pattern : String} {others : List String}
    (h : ∀ p ∈ others, referencesOf content prefixes file p = .ok []) :
    references content (pattern :: others) prefixes file =
      referencesOf content prefixes file pattern := by
  have hothers : others.mapM (referencesOf content prefixes file) =
      .ok (List.replicate others.length []) := by
    induction others with
    | nil => rfl
    | cons p others ih =>
      rw [List.forall_mem_cons] at h
      rw [List.mapM_cons, h.1, ih h.2]
      rfl
  rw [references, List.mapM_cons, hothers]
  cases referencesOf content prefixes file pattern with
  | error e => rfl
  | ok found =>
    change Except.ok (found :: List.replicate others.length []).flatten = _
    rw [List.flatten_cons, List.flatten_replicate_nil, List.append_nil]

/-- In a text without an `f` and an `i`, the default patterns find what the one for the environment
finds. -/
theorem references_default [CharNames] (hf : 'f' ∉ content) (hi : 'i' ∉ content) (prefixes : List String)
    (file : String) :
    references content ({} : Config).patterns prefixes file =
      referencesOf content prefixes file environmentPattern := by
  obtain ⟨others, heq, hothers⟩ := default_patterns
  rw [heq]
  refine references_cons_of_nil fun pattern hpattern => ?_
  obtain ⟨text, hopens, hx | hx⟩ := hothers pattern hpattern
  · exact referencesOf_eq_nil hopens hx hf prefixes file
  · exact referencesOf_eq_nil hopens hx hi prefixes file

/-! ### A name that is read -/

/-- The part of a name before its first digit. -/
def beforeDigit (name : List Char) : List Char := name.takeWhile fun c => !c.isDigit

/-- A character of a name can start one if it is no digit. -/
theorem IsMedial.accepts_initial {c : Char} (h : IsMedial c) : initial.accepts c = !c.isDigit := by
  rw [Bool.eq_iff_iff, Detect.accepts_initial, Bool.not_eq_true', IsInitial, ← Bool.not_eq_true]
  rcases h with hupper | hdigit | rfl
  · rw [Char.isDigit_iff_toNat]
    have hnumber := isUpper_iff.mp hupper
    exact iff_of_true (.inl hupper) (by have : '9'.toNat = 57 := rfl; omega)
  · refine iff_of_false ?_ (fun h => h hdigit)
    rintro (hupper | rfl)
    · have hnumber := isUpper_iff.mp hupper
      rw [Char.isDigit_iff_toNat] at hdigit
      have : '9'.toNat = 57 := rfl
      omega
    · cases hdigit
  · exact iff_of_true (.inr rfl) (by decide)

/-- A part before the first digit is all of a name that has none. -/
theorem beforeDigit_eq_self_iff : beforeDigit name = name ↔ ∀ c ∈ name, c.isDigit = false := by
  rw [beforeDigit, List.takeWhile_eq_self_iff]
  simp only [Bool.not_eq_true']

/-- What is read of a name ends at its first digit. -/
theorem takeWhile_initial (h : IsName name) (rest : List Char) :
    (name ++ '\n' :: rest).takeWhile initial.accepts = beforeDigit name := by
  have hline : initial.accepts '\n' = false := by decide
  have hmedial := h.isMedial
  clear h
  induction name with
  | nil => exact List.takeWhile_cons_of_neg (by rw [hline]; decide)
  | cons c cs ih =>
    rw [List.forall_mem_cons] at hmedial
    rw [beforeDigit, List.cons_append, List.takeWhile_cons, List.takeWhile_cons,
      hmedial.1.accepts_initial, ih hmedial.2]
    rfl

/-- A character that is not in any name. -/
theorem IsName.not_mem (h : IsName name) {x : Char} (hx : medial.accepts x = false) : x ∉ name :=
  fun hmem => Bool.false_ne_true (hx.symm.trans (accepts_medial.mpr (h.isMedial x hmem)))

/-- A text in which a name is read from the environment. -/
def readingText (name : List Char) : List Char := environmentText ++ (name ++ ['\n'])

/-- How far the search comes at the place where a name is read. -/
def readingState (name : List Char) : Regex.State :=
  ⟨(Cursor.start (readingText name)).advance (12 + (beforeDigit name).length),
    [(1, ⟨12, some (12 + (beforeDigit name).length)⟩)]⟩

theorem length_beforeDigit_le (name : List Char) : (beforeDigit name).length ≤ name.length :=
  (List.takeWhile_sublist _).length_le

theorem offset_reading {n : Nat} (h : n ≤ name.length + 1) :
    ((Cursor.start (readingText name)).advance (12 + n)).offset = 12 + n := by
  rw [Cursor.offset_advance]
  · exact Nat.zero_add _
  · have hlength : (readingText name).length = 12 + (name.length + 1) := by
      rw [readingText, List.length_append, List.length_append]
      rfl
    change 12 + n ≤ (readingText name).length
    omega

theorem drop_readingText (name : List Char) : (readingText name).drop 12 = name ++ ['\n'] := by
  change (environmentText ++ (name ++ ['\n'])).drop environmentText.length = _
  rw [List.drop_left]

theorem after_reading (name : List Char) (n : Nat) :
    ((Cursor.start (readingText name)).advance (12 + n)).after = (name ++ ['\n']).drop n := by
  rw [Cursor.after_advance, ← List.drop_drop]
  change ((readingText name).drop 12).drop n = _
  rw [drop_readingText]

/-- One or more characters are kept as far as they go. -/
theorem run_keptRun {what : Regex.Single} {c : Cursor} {x : Char} {rest : List Char}
    (hafter : c.after = x :: rest) (hx : what.accepts x = true) :
    Regex.run (keptRun what) ⟨c, []⟩ some =
      some ⟨c.advance (c.after.takeWhile what.accepts).length,
        [(1, ⟨c.offset, some (c.advance (c.after.takeWhile what.accepts).length).offset⟩)]⟩ := by
  have hnext : c.next.after = rest := by
    rw [Cursor.next, hafter]
  have htake : c.after.takeWhile what.accepts = x :: rest.takeWhile what.accepts := by
    rw [hafter]
    exact List.takeWhile_cons_of_pos (p := fun y => what.accepts y) hx
  rw [keptRun, Regex.run_group, Regex.run_repeated_once, Regex.run_single hafter, if_pos hx]
  refine Regex.run_repeated_single_of_some ?_
  change some (Regex.State.leave ⟨c.next.advance (c.next.after.takeWhile what.accepts).length,
    [(1, ⟨c.offset, none⟩)]⟩ 1) = _
  rw [hnext, htake, List.length_cons]
  rfl

/-- A name is read up to its first digit. -/
theorem reader_environmentRead (h : IsName name) :
    Pattern.reader ⟨environmentRead, 1⟩ false (Cursor.start (readingText name)) =
      some (12 + (beforeDigit name).length, readingState name) := by
  have hbegins : environmentText <+: (Cursor.start (readingText name)).after :=
    List.prefix_append _ _
  have hread := takeWhile_initial h []
  have hoffset := offset_reading (Nat.le_succ_of_le (length_beforeDigit_le name))
  have hafter : ((Cursor.start (readingText name)).advance 12).after = name ++ ['\n'] :=
    after_reading name 0
  have hstart : ((Cursor.start (readingText name)).advance 12).offset = 12 :=
    offset_reading (Nat.zero_le (name.length + 1))
  have hrun : Regex.run environmentRead ⟨Cursor.start (readingText name), []⟩ some =
      some (readingState name) := by
    obtain ⟨c, cs, rfl, hc, -⟩ := h
    rw [environmentRead, Regex.run_behindText, if_pos hbegins]
    refine (run_keptRun hafter (accepts_initial.mpr hc)).trans ?_
    rw [hafter, hread, Cursor.advance_advance, hoffset, hstart]
    rfl
  rw [Pattern.reader]
  simp only [Bool.false_and, Bool.false_eq_true, if_false]
  change (Regex.run environmentRead ⟨Cursor.start (readingText name), []⟩ some).bind _ = _
  rw [hrun]
  change some ((readingState name).cursor.offset - 0, readingState name) = _
  rw [readingState, hoffset, Nat.sub_zero]

/-- Nothing else is read in the text. -/
theorem occurrences_environmentRead (h : IsName name) :
    Pattern.occurrences ⟨environmentRead, 1⟩ (readingText name) =
      [⟨0, 12 + (beforeDigit name).length, readingState name⟩] := by
  have hbehind : ∀ nonempty n, Pattern.reader ⟨environmentRead, 1⟩ nonempty
      (((Cursor.start (readingText name)).advance (12 + (beforeDigit name).length)).advance n) =
        none := by
    intro nonempty n
    refine Pattern.reader_behindText_eq_none fun hbegins => ?_
    rw [Cursor.advance_advance, Nat.add_assoc, after_reading] at hbegins
    have hp : 'p' ∈ name ++ ['\n'] := List.mem_of_mem_drop (hbegins.subset List.mem_cons_self)
    rcases List.mem_append.mp hp with hp | hp
    · exact h.not_mem (by decide) hp
    · exact absurd hp (by decide)
  rw [Pattern.occurrences, Text.hits, Text.hitsFrom, reader_environmentRead h]
  simp only [Text.hitsFrom_eq_nil hbehind]
  rfl

/-- A character that is nowhere in the text. -/
theorem not_mem_readingText (h : IsName name) {x : Char} (htext : x ∉ environmentText)
    (hmedial : medial.accepts x = false) (hline : x ≠ '\n') : x ∉ readingText name := by
  rw [readingText, List.mem_append, List.mem_append, List.mem_singleton]
  rintro (hx | hx | hx)
  · exact htext hx
  · exact h.not_mem hmedial hx
  · exact hline hx

/-- The part of a name before its first digit is what the group of the pattern keeps. -/
theorem keptText_readingState (name : List Char) :
    (readingState name).keptText? 1 = some (beforeDigit name) := by
  have htext : (readingState name).cursor.text = readingText name := by
    rw [readingState, Cursor.text_advance, Cursor.text_start]
  have hsplit : name ++ ['\n'] =
      beforeDigit name ++ ((name.dropWhile fun c => !c.isDigit) ++ ['\n']) := by
    rw [beforeDigit, ← List.append_assoc, List.takeWhile_append_dropWhile]
  change some (((readingState name).cursor.text.drop 12).take
    (12 + (beforeDigit name).length - 12)) = _
  rw [htext, drop_readingText, Nat.add_sub_cancel_left, hsplit, List.take_left]

theorem beforeDigit_ne_nil (h : IsName name) : beforeDigit name ≠ [] := by
  obtain ⟨c, cs, rfl, hc, -⟩ := h
  have hdigit := hc.isMedial.accepts_initial.symm.trans (accepts_initial.mpr hc)
  rw [beforeDigit, List.takeWhile_cons_of_pos (p := fun d : Char => !d.isDigit) hdigit]
  exact List.cons_ne_nil _ _

/-- The reference to the part of a name before its first digit. -/
def readingOf (file : String) (name : List Char) : Reference :=
  ⟨String.ofList (beforeDigit name), file, 1, 1, environmentPattern⟩

/-- Where a name is read from the environment, the default patterns find the part of the name before
its first digit, as long as that has a configured prefix. -/
theorem references_readingText [names : CharNames] (h : IsName name) (prefixes : List String) (file : String) :
    references (readingText name) ({} : Config).patterns prefixes file =
      .ok (if startsWithAny prefixes (beforeDigit name) then [readingOf file name] else []) := by
  have henvironment : readsEnvironment environmentPattern = true := by decide +kernel
  rw [references_default (not_mem_readingText h (by decide) (by decide) (by decide))
    (not_mem_readingText h (by decide) (by decide) (by decide)), referencesOf,
    compile_of_read (read_environmentPattern names) (Nat.le_refl _)]
  simp only [bind, Except.bind, occurrences_environmentRead h, henvironment, Bool.not_true,
    Bool.false_or]
  have hat : ∀ admits, referenceAt (readingText name) file environmentPattern admits
      ⟨0, 12 + (beforeDigit name).length, readingState name⟩ =
        if admits (beforeDigit name) then some (readingOf file name) else none := by
    intro admits
    obtain ⟨c, cs, hcons⟩ := List.exists_cons_of_ne_nil (beforeDigit_ne_nil h)
    rw [referenceAt]
    simp only [keptText_readingState, hcons, readingOf]
    rfl
  rw [List.filterMap_cons, hat]
  cases startsWithAny prefixes (beforeDigit name) <;> rfl

/-! ### A name that is defined -/

/-- A definition has an equals sign. -/
theorem StartsAt.equals_mem {i : Nat} (h : StartsAt content i name) : '=' ∈ content.drop i := by
  obtain ⟨blanks, rest, hassigns⟩ := h.assigns
  rw [hassigns.eq]
  simp

/-- A text without an equals sign defines nothing. -/
theorem definitions_eq_nil (h : '=' ∉ content) (prefixes : List String) (file : String) :
    definitions content prefixes file = [] := by
  have hstarts : starts content = [] := List.eq_nil_iff_forall_not_mem.mpr fun start hstart =>
    h (List.mem_of_mem_drop (mem_starts_iff.mp hstart).equals_mem)
  rw [definitions_eq_map, hstarts]
  rfl

/-- A text that begins with a name and its only equals sign has one definition. -/
theorem starts_eq_singleton (h : IsName name) (hvalue : '=' ∉ value) :
    starts (name ++ '=' :: value) = [(0, name)] := by
  have hassigns : AssignsWith (name ++ '=' :: value) name [] value :=
    ⟨rfl, h, fun b hb => absurd hb List.not_mem_nil⟩
  refine starts_eq_of_mem_iff (List.pairwise_singleton _ _) ?_
  rintro ⟨i, name'⟩
  rw [List.mem_singleton]
  constructor
  · intro heq
    cases heq
    exact ⟨⟨[], value, hassigns⟩, .inl rfl⟩
  · intro hstarts
    have hequals := hstarts.equals_mem
    rcases hstarts.outside (j := 0) hassigns with hzero | hbehind
    · obtain rfl : i = 0 := Nat.le_zero.mp hzero
      obtain ⟨blanks, rest, hassigns'⟩ := hstarts.assigns
      exact Prod.ext rfl (hassigns'.name_eq hassigns)
    · -- Behind the equals sign there is no other one.
      obtain ⟨n, rfl⟩ : ∃ n, i = name.length + (n + 1) := ⟨i - name.length - 1, by
        simp only [List.length_nil] at hbehind
        omega⟩
      rw [← List.drop_drop, List.drop_left, List.drop_succ_cons] at hequals
      exact absurd (List.mem_of_mem_drop hequals) hvalue

/-- A text that defines a name in its first line, and whatever ends the line. -/
def definingText (name lineEnd : List Char) : List Char := name ++ '=' :: '1' :: lineEnd

/-- The definition of a name at the start of a file. -/
def definingOf (file : String) (name : List Char) : Definition := ⟨String.ofList name, file, 1, 1⟩

/-- A line that defines a name with a configured prefix has that definition. -/
theorem definitions_definingText (h : IsName name) {lineEnd : List Char} (hend : '=' ∉ lineEnd)
    (hadmitted : startsWithAny prefixes name = true) (file : String) :
    definitions (definingText name lineEnd) prefixes file = [definingOf file name] := by
  have hvalue : '=' ∉ '1' :: lineEnd := by
    rw [List.mem_cons, not_or]
    exact ⟨by decide, hend⟩
  rw [definingText, definitions_eq_map, starts_eq_singleton h hvalue, List.filter_singleton,
    hadmitted]
  rfl

/-- The default patterns find nothing in a line that defines a name. -/
theorem references_definingText [CharNames] (h : IsName name) {lineEnd : List Char}
    (hend : ∀ c ∈ lineEnd, c = '\n') (prefixes : List String) (file : String) :
    references (definingText name lineEnd) ({} : Config).patterns prefixes file = .ok [] := by
  have hletter : ∀ {x}, medial.accepts x = false → x ∉ ['=', '1', '\n'] →
      x ∉ definingText name lineEnd := by
    intro x hx hothers hmem
    simp only [definingText, List.mem_append, List.mem_cons] at hmem
    rcases hmem with hmem | rfl | rfl | hmem
    · exact h.not_mem hx hmem
    · exact hothers (by decide)
    · exact hothers (by decide)
    · exact hothers (by simp [hend x hmem])
  rw [references_default (hletter (by decide) (by decide)) (hletter (by decide) (by decide))]
  exact referencesOf_eq_nil ⟨_, read_environmentPattern⟩ List.mem_cons_self
    (hletter (x := 'p') (by decide) (by decide)) prefixes file

end FlagAudit.Detect
