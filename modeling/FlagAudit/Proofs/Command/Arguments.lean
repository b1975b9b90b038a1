import FlagAudit.Command.Arguments
import Mathlib.Data.List.Infix
import Mathlib.Data.List.TakeWhile

/-!
# What arguments ask for

An option is called by its name, or by a beginning that no other name has (`Calls`). Arguments that ask for a
run are read from left to right (`Reads`): every word of them is an option, the value of an option, or the path
(`reads_of_parse`). So an option without a value is in effect exactly if some word in front of two hyphens calls
it (`switches_of_parse`).
-/

namespace FlagAudit.Command

/-! ### Words -/

/-- The names of the options. -/
def optionNames : List String :=
  ["-h", "--help", "--ci", "--json", "--config", "--ignore", "--strict", "--verbose", "--workers",
    "--version"]

/-- A word calls an option: it is the beginning of the name of this option, and of no other name. -/
def Calls (word name : String) : Prop :=
  name ∈ optionNames ∧ word.toList <+: name.toList ∧
    ∀ other ∈ optionNames, word.toList <+: other.toList → other = name

instance (word name : String) : Decidable (Calls word name) :=
  inferInstanceAs (Decidable (name ∈ optionNames ∧ word.toList <+: name.toList ∧
    ∀ other ∈ optionNames, word.toList <+: other.toList → other = name))

/-- A word calls an option and has a value for it, behind an equals sign. -/
def CallsWith (word name value : String) : Prop := ∃ called, Calls called name ∧ word = called ++ "=" ++ value

/-- A word is a value or a path: it calls no option. -/
def IsPlain (word : String) : Prop :=
  word ≠ "--" ∧ ∀ name, ¬ Calls word name ∧ ∀ value, ¬ CallsWith word name value

/-- Words give a value to an option: one word behind another, or both in one. -/
inductive Gives (name value : String) : List String → Prop where
  /-- The value is a word of its own. -/
  | apart {word : String} : Calls word name → IsPlain value → Gives name value [word, value]
  /-- The value is behind an equals sign. -/
  | attached {word : String} : CallsWith word name value → Gives name value [word]

/-- Arguments change what is asked for, read from left to right. -/
inductive Reads : Options → List String → Options → Prop where
  /-- Nothing more is asked for. -/
  | nil {o : Options} : Reads o [] o
  /-- A report for continuous integration is asked for. -/
  | ci {o o' : Options} {word : String} {rest : List String} :
      Calls word "--ci" → Reads { o with ci := true } rest o' → Reads o (word :: rest) o'
  /-- A report for a program is asked for. -/
  | json {o o' : Options} {word : String} {rest : List String} :
      Calls word "--json" → Reads { o with json := true } rest o' → Reads o (word :: rest) o'
  /-- Strict mode is asked for. -/
  | strict {o o' : Options} {word : String} {rest : List String} :
      Calls word "--strict" → Reads { o with strict := true } rest o' → Reads o (word :: rest) o'
  /-- Every finding and every step is asked for. -/
  | verbose {o o' : Options} {word : String} {rest : List String} :
      Calls word "--verbose" → Reads { o with verbose := true } rest o' → Reads o (word :: rest) o'
  /-- The configuration file is named. The last one counts. -/
  | config {o o' : Options} {value : String} {words rest : List String} :
      Gives "--config" value words → Reads { o with config := value } rest o' → Reads o (words ++ rest) o'
  /-- One more exclude pattern is given. -/
  | ignore {o o' : Options} {value : String} {words rest : List String} :
      Gives "--ignore" value words → Reads { o with ignore := o.ignore ++ [value] } rest o' →
      Reads o (words ++ rest) o'
  /-- The number of workers is given. The last one counts. -/
  | workers {o o' : Options} {value : String} {n : Int} {words rest : List String} :
      Gives "--workers" value words → Text.wholeNumber? value.toList = some n →
      Reads { o with workers := n } rest o' → Reads o (words ++ rest) o'
  /-- The path is given. -/
  | path {o o' : Options} {word : String} {rest : List String} :
      IsPlain word → Reads { o with path := word } rest o' → Reads o (word :: rest) o'
  /-- Two hyphens end the options. -/
  | hyphens {o : Options} : Reads o ["--"] o
  /-- Whatever is behind two hyphens is the path. -/
  | behind {o : Options} {word : String} : Reads o ["--", word] { o with path := word }

/-- An option is called among arguments, in front of two hyphens. -/
def Given (name : String) (arguments : List String) : Prop :=
  ∃ word ∈ arguments.takeWhile (· ≠ "--"), Calls word name

instance (name : String) (arguments : List String) : Decidable (Given name arguments) :=
  inferInstanceAs (Decidable (∃ word ∈ arguments.takeWhile (· ≠ "--"), Calls word name))

/-! ### Calling options -/

section Calls

variable {word name value : String}

/-- A word calls one option at most. -/
theorem Calls.unique {name' : String} (h : Calls word name) (h' : Calls word name') : name = name' :=
  h'.2.2 name h.1 h.2.1

/-- All names begin with a hyphen, so a word that calls an option has more than it. -/
theorem Calls.two_le_length (h : Calls word name) : 2 ≤ word.toList.length := by
  have hhyphen : ∀ name ∈ optionNames, ['-'] <+: name.toList := by decide
  by_contra hshort
  have hword : word.toList <+: ['-'] :=
    List.prefix_of_prefix_length_le h.2.1 (hhyphen name h.1) (Nat.le_of_lt_succ (not_le.mp hshort))
  have hall : ∀ other ∈ optionNames, other = name := fun other hother =>
    h.2.2 other hother (hword.trans (hhyphen other hother))
  have hdiffer : "--ci" = "--json" := (hall "--ci" (by decide)).trans (hall "--json" (by decide)).symm
  exact absurd hdiffer (by decide)

/-- The names of options are made of two hyphens and letters, but for one of a single letter. -/
theorem Calls.cases (h : Calls word name) :
    '=' ∉ word.toList ∧ (word = "-h" ∨ ['-', '-'] <+: word.toList) := by
  have hnames : ∀ name ∈ optionNames, '=' ∉ name.toList ∧ (name = "-h" ∨ ['-', '-'] <+: name.toList) := by
    decide
  obtain ⟨hsign, hname⟩ := hnames name h.1
  refine ⟨fun hmem => hsign (h.2.1.subset hmem), ?_⟩
  rcases hname with rfl | hhyphens
  · exact .inl (String.toList_inj.mp (h.2.1.eq_of_length_le h.two_le_length))
  · exact .inr (List.prefix_of_prefix_length_le hhyphens h.2.1 h.two_le_length)

theorem Calls.ne_hyphens (h : Calls word name) : word ≠ "--" := by
  rintro rfl
  have hdiffer : "--ci" = "--json" :=
    (h.2.2 "--ci" (by decide) (by decide)).trans (h.2.2 "--json" (by decide) (by decide)).symm
  exact absurd hdiffer (by decide)

end Calls

/-! ### Telling words apart -/

section Classify

variable {s name : String} {value : Option String} {opt : Opt} {a : Argument}

theorem startsWith_iff {start : String} : startsWith start s = true ↔ start.toList <+: s.toList :=
  List.isPrefixOf_iff_prefix

theorem bne_sign {cs : List Char} (h : '=' ∉ cs) : ∀ c ∈ cs, (c != '=') = true := by
  intro c hc
  rw [bne_iff_ne]
  rintro rfl
  exact h hc

/-- A text without an equals sign is a name only. -/
theorem splitEquals_of_not_mem (h : '=' ∉ s.toList) : splitEquals s = (s, none) := by
  have htake : s.toList.takeWhile (· != '=') = s.toList :=
    List.takeWhile_eq_self_iff.mpr (bne_sign h)
  simp only [splitEquals, htake, List.drop_length]

/-- Behind the first equals sign is the value. -/
theorem splitEquals_append (h : '=' ∉ name.toList) (value : String) :
    splitEquals (name ++ "=" ++ value) = (name, some value) := by
  have htext : (name ++ "=" ++ value).toList = name.toList ++ '=' :: value.toList := by
    simp
  have htake : (name.toList ++ '=' :: value.toList).takeWhile (· != '=') = name.toList := by
    rw [List.takeWhile_append_of_pos (bne_sign h)]
    simp
  simp only [splitEquals, htext, htake, List.drop_left, String.ofList_toList]

theorem splitEquals_cases (h : splitEquals s = (name, value)) :
    (name = s ∧ value = none) ∨ ∃ v, s = name ++ "=" ++ v ∧ value = some v := by
  by_cases hsign : '=' ∈ s.toList
  · obtain ⟨before, behind, htext, hbefore⟩ := List.eq_append_cons_of_mem hsign
    have hs : s = String.ofList before ++ "=" ++ String.ofList behind := by
      rw [← String.toList_inj, htext]
      simp
    rw [hs, splitEquals_append (by rwa [String.toList_ofList]), Prod.mk.injEq] at h
    obtain ⟨rfl, rfl⟩ := h
    exact .inr ⟨_, hs, rfl⟩
  · rw [splitEquals_of_not_mem hsign, Prod.mk.injEq] at h
    exact .inl ⟨h.1.symm, h.2.symm⟩

/-- A name is the beginning of its text. -/
theorem prefix_of_splitEquals (h : splitEquals s = (name, value)) : name.toList <+: s.toList := by
  rcases splitEquals_cases h with ⟨rfl, -⟩ | ⟨v, rfl, -⟩
  · exact List.prefix_refl _
  · rw [String.append_assoc, String.toList_append]
    exact List.prefix_append ..

/-- A word is plain if the part of it in front of an equals sign calls no option. -/
theorem isPlain_of_splitEquals (hs : s ≠ "--") (hsplit : splitEquals s = (name, value))
    (h : ∀ option, ¬ Calls name option) : IsPlain s := by
  refine ⟨hs, fun option => ⟨fun hcalls => ?_, ?_⟩⟩
  · rw [splitEquals_of_not_mem hcalls.cases.1, Prod.mk.injEq] at hsplit
    exact h option (hsplit.1 ▸ hcalls)
  · rintro value' ⟨called, hcalls, rfl⟩
    rw [splitEquals_append hcalls.cases.1, Prod.mk.injEq] at hsplit
    exact h option (hsplit.1 ▸ hcalls)

theorem map_spellings : spellings.map (·.1) = optionNames := rfl

theorem exists_mem_spellings (h : name ∈ optionNames) : ∃ opt, (name, opt) ∈ spellings := by
  obtain ⟨⟨name', opt⟩, hmem, rfl⟩ := List.mem_map.mp (map_spellings ▸ h)
  exact ⟨opt, hmem⟩

theorem mem_optionNames (h : (name, opt) ∈ spellings) : name ∈ optionNames :=
  map_spellings ▸ List.mem_map_of_mem h

/-- An option is called by its name. -/
theorem calls_self (h : name ∈ optionNames) : Calls name name := by
  revert name
  decide

theorem mem_of_lookup (h : spellings.lookup name = some opt) : (name, opt) ∈ spellings := by
  obtain ⟨before, behind, hsplit, -⟩ := List.lookup_eq_some_iff.mp h
  rw [hsplit]
  exact List.mem_append_right _ List.mem_cons_self

/-- The only name that a text begins. -/
theorem calls_of_filter {o : String × Opt} (h : spellings.filter (fun o => startsWith s o.1) = [o]) :
    o ∈ spellings ∧ Calls s o.1 := by
  have hfound : ∀ o', o' ∈ spellings ∧ s.toList <+: o'.1.toList ↔ o' = o := by
    intro o'
    rw [← List.mem_singleton, ← h, List.mem_filter, startsWith_iff]
  obtain ⟨hmem, hbegins⟩ := (hfound o).mpr rfl
  refine ⟨hmem, mem_optionNames hmem, hbegins, fun other hother hshort => ?_⟩
  obtain ⟨opt, hother⟩ := exists_mem_spellings hother
  exact congrArg Prod.fst ((hfound (other, opt)).mp ⟨hother, hshort⟩)

/-- What a word with two hyphens in front is short for, if there is no more than one. -/
theorem candidates_eq_singleton (hsplit : splitEquals s = (name, value)) {n : String}
    (h : candidates s = [(n, a)]) :
    (∃ opt, (n, opt) ∈ spellings ∧ Calls name n ∧ a = .option opt (.ofEquals value)) ∨
      ∃ rest, a = .option .help (.directly rest) := by
  rw [candidates, hsplit] at h
  dsimp only at h
  split at h
  · obtain ⟨o, hfilter, ho⟩ := List.map_eq_singleton_iff.mp h
    obtain ⟨hmem, hcalls⟩ := calls_of_filter hfilter
    cases ho
    exact .inl ⟨o.2, hmem, hcalls, rfl⟩
  · obtain ⟨o, hfilter, ho⟩ := List.map_eq_singleton_iff.mp h
    have hmem := List.mem_filter.mp (hfilter ▸ List.mem_singleton_self o)
    have hshort : o.1.toList.length ≤ 2 := by
      rw [beq_iff_eq.mp hmem.2, String.toList_ofList]
      exact List.length_take_le ..
    have hhelp : ∀ o ∈ spellings, o.1.toList.length ≤ 2 → o.2 = .help := by decide
    cases ho
    rw [hhelp o hmem.1 hshort]
    exact .inr ⟨_, rfl⟩

/-- A word that calls an option is short for something. -/
theorem candidates_ne_nil (hsplit : splitEquals s = (name, value)) {n : String} (hcalls : Calls name n)
    (hname : ['-', '-'] <+: name.toList) : candidates s ≠ [] := by
  have hlong : startsWith "--" s = true := startsWith_iff.mpr (hname.trans (prefix_of_splitEquals hsplit))
  obtain ⟨opt, hmem⟩ := exists_mem_spellings hcalls.1
  have hfound : (n, opt) ∈ spellings.filter fun o => startsWith name o.1 :=
    List.mem_filter.mpr ⟨hmem, startsWith_iff.mpr hcalls.2.1⟩
  rw [candidates, hsplit]
  dsimp only
  rw [if_pos hlong, ne_eq, List.map_eq_nil_iff]
  exact List.ne_nil_of_mem hfound

/-- What a word in front of two hyphens can be told apart as. -/
inductive Means (word : String) : Argument → Prop where
  /-- A value or a path. -/
  | plain : IsPlain word → Means word (.plain word)
  /-- Something like an option. -/
  | unknown : Means word (.unknown word)
  /-- An option without a value. -/
  | option {name : String} {opt : Opt} : (name, opt) ∈ spellings → Calls word name →
      Means word (.option opt .none)
  /-- An option with a value behind an equals sign. -/
  | optionWith {name value : String} {opt : Opt} : (name, opt) ∈ spellings → CallsWith word name value →
      Means word (.option opt (.byEquals value))
  /-- The option of one letter, with more letters. -/
  | letters {rest : String} : Means word (.option .help (.directly rest))

/-- An option that the name in a word calls. -/
theorem means_of_calls (hsplit : splitEquals s = (name, value)) {n : String} (hmem : (n, opt) ∈ spellings)
    (hcalls : Calls name n) : Means s (.option opt (.ofEquals value)) := by
  rcases splitEquals_cases hsplit with ⟨rfl, rfl⟩ | ⟨v, hs, rfl⟩
  · exact .option hmem hcalls
  · exact .optionWith hmem ⟨name, hcalls, hs⟩

/-- A word whose name calls an option has a hyphen in front and is longer. -/
theorem hyphen_of_calls (hsplit : splitEquals s = (name, value)) {n : String} (hcalls : Calls name n) :
    startsWith "-" s = true ∧ s ≠ "-" := by
  have hhyphen : ['-'] <+: name.toList := by
    rcases hcalls.cases.2 with rfl | hhyphens
    · exact List.prefix_append ['-'] ['h']
    · exact (List.prefix_append ['-'] ['-']).trans hhyphens
  have hbegins := prefix_of_splitEquals hsplit
  refine ⟨startsWith_iff.mpr (hhyphen.trans hbegins), ?_⟩
  rintro rfl
  exact absurd (hcalls.two_le_length.trans hbegins.length_le) (by decide)

/-- A word whose name calls an option is the name of an option, or short for something. -/
theorem candidates_ne_nil_of_calls (hsplit : splitEquals s = (name, value)) {n : String}
    (hcalls : Calls name n) (hs : spellings.lookup s = none)
    (hname : ∀ v opt, value = some v → spellings.lookup name = some opt → False) : candidates s ≠ [] := by
  rcases hcalls.cases.2 with rfl | hhyphens
  · rcases splitEquals_cases hsplit with ⟨rfl, -⟩ | ⟨v, -, hvalue⟩
    · cases hs
    · exact (hname v .help hvalue rfl).elim
  · exact candidates_ne_nil hsplit hcalls hhyphens

/-- Words are told apart by the options that they call. -/
theorem means_of_classify (hs : s ≠ "--") (h : classify s = .ok a) : Means s a := by
  rcases hsplit : splitEquals s with ⟨name, value⟩
  rw [classify, hsplit] at h
  dsimp only at h
  split at h
  · next hhyphen =>
    cases h
    refine .plain (isPlain_of_splitEquals hs hsplit fun option hcalls => ?_)
    rw [(hyphen_of_calls hsplit hcalls).1] at hhyphen
    cases hhyphen
  · split at h
    · next opt hlookup =>
      cases h
      have hmem := mem_of_lookup hlookup
      exact .option hmem (calls_self (mem_optionNames hmem))
    · next hlookup =>
      split at h
      · next hone =>
        cases h
        refine .plain (isPlain_of_splitEquals hs hsplit fun option hcalls => ?_)
        exact (hyphen_of_calls hsplit hcalls).2 (beq_iff_eq.mp hone)
      · split at h
        · next v opt hlookup =>
          cases h
          have hmem := mem_of_lookup hlookup
          exact means_of_calls hsplit hmem (calls_self (mem_optionNames hmem))
        · next hnone =>
          split at h
          · next n a' hcandidates =>
            cases h
            rcases candidates_eq_singleton hsplit hcandidates with ⟨opt, hmem, hcalls, rfl⟩ | ⟨rest, rfl⟩
            · exact means_of_calls hsplit hmem hcalls
            · exact .letters
          · next hcandidates =>
            split at h
            · cases h
              refine .plain (isPlain_of_splitEquals hs hsplit fun option hcalls => ?_)
              exact candidates_ne_nil_of_calls hsplit hcalls hlookup hnone hcandidates
            · cases h
              exact .unknown
          · cases h

end Classify

/-! ### Words take effect -/

section Take

variable {p q : Progress} {a : Argument} {as : List Argument} {behind : Option (List String)} {opt : Opt}
  {name value : String} {words rest : List String} {o : Options}

theorem assign_eq_ok (h : assign opt value p = .ok q) : q.pending = none ∧ q.extras = p.extras := by
  rw [assign.eq_def] at h
  dsimp only at h
  split at h
  case h_3 =>
    split at h
    · cases h
      exact ⟨rfl, rfl⟩
    · cases h
  all_goals
    cases h
    exact ⟨rfl, rfl⟩

theorem switchOn_eq_ok (h : switchOn opt p = .ok q) :
    q.extras = p.extras ∧ (opt.takesValue = false → q.pending = p.pending) ∧
      (opt.takesValue = true → q.pending = some opt ∧ q.options = p.options) := by
  cases opt <;> cases h <;> exact ⟨rfl, by simp [Opt.takesValue]⟩

/-- The first plain argument is the path, and there is no use for another one. -/
theorem takePlain_of_extras {word : String} (h : (takePlain word p).extras = []) :
    (takePlain word p).options = { p.options with path := word } ∧
      (takePlain word p).pending = p.pending := by
  rw [takePlain] at h ⊢
  split at h
  · exact absurd h (List.append_ne_nil_of_right_ne_nil _ (List.cons_ne_nil _ _))
  · next hgiven =>
    rw [if_neg hgiven]
    exact ⟨rfl, rfl⟩

theorem settled_eq_ok (h : settled p = .ok q) : p.pending = none ∧ p = q := by
  rw [settled] at h
  split at h
  · cases h
  · next hpending => exact ⟨hpending, Except.ok.inj h⟩

theorem takeOption_eq_ok {attached : Attached} (h : takeOption opt attached p = .ok q) :
    (attached = .none ∧ switchOn opt p = .ok q) ∨
      ∃ value, (attached = .byEquals value ∨ attached = .directly value) ∧ opt.takesValue = true ∧
        assign opt value p = .ok q := by
  cases attached with
  | none => exact .inl ⟨rfl, h⟩
  | byEquals value =>
    rw [takeOption] at h
    split at h
    · next hvalue => exact .inr ⟨value, .inl rfl, hvalue, h⟩
    · cases h
  | directly value =>
    rw [takeOption] at h
    split at h
    · next hvalue => exact .inr ⟨value, .inr rfl, hvalue, h⟩
    · cases h

theorem eq_ok_of_bind {ε α β : Type} {x : Except ε α} {f : α → Except ε β} {b : β} (h : x >>= f = .ok b) :
    ∃ a, x = .ok a ∧ f a = .ok b := by
  cases x with
  | error e => cases h
  | ok a => exact ⟨a, rfl, h⟩

/-- How an argument can take effect. -/
inductive Takes (p q : Progress) : Argument → Prop where
  /-- The option that waits for its value has it. -/
  | awaited {value : String} {opt : Opt} : p.pending = some opt → assign opt value p = .ok q →
      Takes p q (.plain value)
  /-- A path, or an argument that there is no use for. -/
  | plain {word : String} : p.pending = none → q = takePlain word p → Takes p q (.plain word)
  /-- An argument that there is no use for. -/
  | unknown {word : String} : p.pending = none → q.extras = p.extras ++ [word] → Takes p q (.unknown word)
  /-- An option is in effect, or waits for its value. -/
  | option {opt : Opt} : p.pending = none → switchOn opt p = .ok q → Takes p q (.option opt .none)
  /-- An option is in effect with its value. -/
  | optionWith {opt : Opt} {attached : Attached} {value : String} : p.pending = none →
      attached = .byEquals value ∨ attached = .directly value → opt.takesValue = true →
      assign opt value p = .ok q → Takes p q (.option opt attached)

theorem takes_of_take (h : take p a = .ok q) : Takes p q a := by
  cases a with
  | plain word =>
    rw [take] at h
    split at h
    · next hpending => exact .awaited hpending h
    · next hpending => exact .plain hpending (Except.ok.inj h).symm
  | unknown word =>
    obtain ⟨p', hsettled, hq⟩ := eq_ok_of_bind h
    obtain ⟨hpending, rfl⟩ := settled_eq_ok hsettled
    cases hq
    exact .unknown hpending rfl
  | option opt attached =>
    obtain ⟨p', hsettled, hq⟩ := eq_ok_of_bind h
    obtain ⟨hpending, rfl⟩ := settled_eq_ok hsettled
    rcases takeOption_eq_ok hq with ⟨rfl, hswitch⟩ | ⟨value, hattached, hvalue, hassign⟩
    · exact .option hpending hswitch
    · exact .optionWith hpending hattached hvalue hassign

/-- Arguments that there is no use for remain. -/
theorem Takes.keeps_extras (h : Takes p q a) : p.extras <+: q.extras := by
  cases h with
  | awaited _ hassign => rw [(assign_eq_ok hassign).2]
  | plain _ hq =>
    rw [hq, takePlain]
    split
    · exact List.prefix_append ..
    · exact List.prefix_refl _
  | unknown _ hextras => exact hextras ▸ List.prefix_append ..
  | option _ hswitch => rw [(switchOn_eq_ok hswitch).1]
  | optionWith _ _ _ hassign => rw [(assign_eq_ok hassign).2]

theorem keeps_extras_of_foldlM (h : as.foldlM take p = .ok q) : p.extras <+: q.extras := by
  induction as generalizing p with
  | nil =>
    cases h
    exact List.prefix_refl _
  | cons a as ih =>
    rw [List.foldlM_cons] at h
    obtain ⟨p', htake, hrest⟩ := eq_ok_of_bind h
    exact (takes_of_take htake).keeps_extras.trans (ih hrest)

/-- If there is a use for every argument, what is behind two hyphens is the path or nothing. -/
theorem reads_of_takeBehind (h : (takeBehind behind p).extras = []) :
    p.extras = [] ∧ Reads p.options (behind.elim [] ("--" :: ·)) (takeBehind behind p).options := by
  cases behind with
  | none => exact ⟨h, .nil⟩
  | some words =>
    by_cases hgiven : p.pathGiven = true
    · have hbehind : takeBehind (some words) p =
          { p with extras := p.extras ++ (if p.afterPath then words else "--" :: words) } := if_pos hgiven
      rw [hbehind, List.append_eq_nil_iff] at h
      obtain ⟨hextras, hwords⟩ := h
      split at hwords
      · rw [hbehind, hwords]
        exact ⟨hextras, .hyphens⟩
      · cases hwords
    · cases words with
      | nil =>
        have hbehind : takeBehind (some []) p = p := if_neg hgiven
        rw [hbehind] at h ⊢
        exact ⟨h, .hyphens⟩
      | cons word words =>
        have hbehind : takeBehind (some (word :: words)) p =
            { takePlain word p with extras := p.extras ++ words } := if_neg hgiven
        have htake : (takePlain word p).options = { p.options with path := word } := by
          rw [takePlain, if_neg hgiven]
        rw [hbehind, List.append_eq_nil_iff] at h
        obtain ⟨hextras, rfl⟩ := h
        rw [hbehind, htake]
        exact ⟨hextras, .behind⟩

/-- An option is in effect with the value that words give to it. -/
theorem reads_of_assign (hmem : (name, opt) ∈ spellings) (hvalue : opt.takesValue = true)
    (hgives : Gives name value words) (hassign : assign opt value p = .ok q)
    (hrest : Reads q.options rest o) : Reads p.options (words ++ rest) o := by
  cases opt with
  | config =>
    obtain rfl : name = "--config" := by simpa [spellings] using hmem
    cases hassign
    exact .config hgives hrest
  | ignore =>
    obtain rfl : name = "--ignore" := by simpa [spellings] using hmem
    cases hassign
    exact .ignore hgives hrest
  | workers =>
    obtain rfl : name = "--workers" := by simpa [spellings] using hmem
    rw [assign.eq_def] at hassign
    dsimp only at hassign
    split at hassign
    · next n hnumber =>
      cases hassign
      exact .workers hgives hnumber hrest
    · cases hassign
  | _ => cases hvalue

/-- An option without a value is in effect. -/
theorem reads_of_switchOn {word : String} (hmem : (name, opt) ∈ spellings) (hvalue : opt.takesValue = false)
    (hcalls : Calls word name) (hswitch : switchOn opt p = .ok q) (hrest : Reads q.options rest o) :
    Reads p.options (word :: rest) o := by
  cases opt with
  | ci =>
    obtain rfl : name = "--ci" := by simpa [spellings] using hmem
    cases hswitch
    exact .ci hcalls hrest
  | json =>
    obtain rfl : name = "--json" := by simpa [spellings] using hmem
    cases hswitch
    exact .json hcalls hrest
  | strict =>
    obtain rfl : name = "--strict" := by simpa [spellings] using hmem
    cases hswitch
    exact .strict hcalls hrest
  | verbose =>
    obtain rfl : name = "--verbose" := by simpa [spellings] using hmem
    cases hswitch
    exact .verbose hcalls hrest
  | help => cases hswitch
  | version => cases hswitch
  | _ => cases hvalue

/-- Words are read on from the options that there are. If one of them waits for its value, it is the first
word. -/
def ReadsOn (p : Progress) (words : List String) (o : Options) : Prop :=
  match p.pending with
  | none => Reads p.options words o
  | some opt => ∃ value rest q, words = value :: rest ∧ IsPlain value ∧ assign opt value p = .ok q ∧
      Reads q.options rest o

theorem readsOn_of_none (hpending : p.pending = none) : ReadsOn p words o ↔ Reads p.options words o := by
  rw [ReadsOn, hpending]

theorem readsOn_of_some (hpending : p.pending = some opt) :
    ReadsOn p words o ↔ ∃ value rest q, words = value :: rest ∧ IsPlain value ∧ assign opt value p = .ok q ∧
      Reads q.options rest o := by
  rw [ReadsOn, hpending]

/-- One more word in front. -/
theorem Takes.readsOn {word : String} (htakes : Takes p q a) (hmeans : Means word a) (hextras : q.extras = [])
    (hrest : ReadsOn q rest o) : ReadsOn p (word :: rest) o := by
  cases htakes with
  | awaited hpending hassign =>
    cases hmeans with
    | plain hplain =>
      rw [readsOn_of_none (assign_eq_ok hassign).1] at hrest
      exact (readsOn_of_some hpending).mpr ⟨_, _, _, rfl, hplain, hassign, hrest⟩
  | plain hpending hq =>
    cases hmeans with
    | plain hplain =>
      subst hq
      obtain ⟨hoptions, hnone⟩ := takePlain_of_extras hextras
      rw [readsOn_of_none (hnone.trans hpending), hoptions] at hrest
      exact (readsOn_of_none hpending).mpr (.path hplain hrest)
  | unknown hpending hq =>
    rw [hq] at hextras
    exact absurd hextras (List.append_ne_nil_of_right_ne_nil _ (List.cons_ne_nil _ _))
  | @option opt hpending hswitch =>
    obtain ⟨-, hdone, hwaits⟩ := switchOn_eq_ok hswitch
    rw [readsOn_of_none hpending]
    cases hmeans with
    | option hmem hcalls =>
      cases hvalue : opt.takesValue with
      | false =>
        rw [readsOn_of_none ((hdone hvalue).trans hpending)] at hrest
        exact reads_of_switchOn hmem hvalue hcalls hswitch hrest
      | true =>
        obtain ⟨hsome, hoptions⟩ := hwaits hvalue
        obtain ⟨value, rest', q', rfl, hplain, hassign, hrest'⟩ := (readsOn_of_some hsome).mp hrest
        exact hoptions ▸ reads_of_assign hmem hvalue (.apart hcalls hplain) hassign hrest'
  | optionWith hpending hattached hvalue hassign =>
    rw [readsOn_of_none (assign_eq_ok hassign).1] at hrest
    rw [readsOn_of_none hpending]
    cases hmeans with
    | option => rcases hattached with hattached | hattached <;> cases hattached
    | optionWith hmem hcalls =>
      rcases hattached with hattached | hattached <;> cases hattached
      exact reads_of_assign hmem hvalue (.attached hcalls) hassign hrest
    | letters => cases hvalue

/-- All words are read, with what is behind two hyphens. -/
theorem readsOn_of_split (hsplit : split words = .ok (as, behind)) (hfold : as.foldlM take p = .ok q)
    (hpending : q.pending = none) (hextras : (takeBehind behind q).extras = []) :
    ReadsOn p words (takeBehind behind q).options := by
  obtain ⟨hq, hbehind⟩ := reads_of_takeBehind hextras
  induction words generalizing as p with
  | nil =>
    cases hsplit
    cases hfold
    exact (readsOn_of_none hpending).mpr hbehind
  | cons word words ih =>
    rw [split] at hsplit
    split at hsplit
    · next hhyphens =>
      cases hsplit
      cases hfold
      rw [beq_iff_eq.mp hhyphens]
      exact (readsOn_of_none hpending).mpr hbehind
    · next hhyphens =>
      obtain ⟨a, hclassify, hsplit⟩ := eq_ok_of_bind hsplit
      obtain ⟨⟨as', behind'⟩, hsplit', hpair⟩ := eq_ok_of_bind hsplit
      cases hpair
      rw [List.foldlM_cons] at hfold
      obtain ⟨p', htake, hfold⟩ := eq_ok_of_bind hfold
      have hnone : p'.extras = [] := List.prefix_nil.mp (hq ▸ keeps_extras_of_foldlM hfold)
      have hword : word ≠ "--" := fun heq => hhyphens (beq_iff_eq.mpr heq)
      exact (takes_of_take htake).readsOn (means_of_classify hword hclassify) hnone (ih hsplit' hfold)

end Take

/-! ### Results that end the command -/

section NoRun

variable {α β : Type}

/-- A step that fails does not ask for a run. -/
def NeverRuns (x : Except Parsed α) : Prop := ∀ o, x ≠ .error (.run o)

theorem NeverRuns.bind {x : Except Parsed α} {f : α → Except Parsed β} (hx : NeverRuns x)
    (hf : ∀ a, NeverRuns (f a)) : NeverRuns (x >>= f) := by
  intro o
  cases x with
  | error result => exact fun h => hx o (congrArg Except.error (Except.error.inj h))
  | ok a => exact hf a o

theorem neverRuns_ok (a : α) : NeverRuns (.ok a) := fun _ h => by cases h

theorem letters_ne_run (opt : Opt) (cs : List Char) (o : Options) : letters opt cs ≠ .run o := by
  induction cs with
  | nil => exact Parsed.noConfusion
  | cons c cs ih =>
    rw [letters.eq_def]
    split
    · exact Parsed.noConfusion
    · exact Parsed.noConfusion
    · next heq =>
      cases heq
      split
      · exact Parsed.noConfusion
      · exact ih
    · exact Parsed.noConfusion

theorem neverRuns_refuse (opt : Opt) (attached : Attached) :
    NeverRuns (.error (refuse opt attached) : Except Parsed α) := by
  intro o h
  have hrefuse := Except.error.inj h
  rw [refuse.eq_def] at hrefuse
  split at hrefuse
  · split at hrefuse
    · cases hrefuse
    · exact letters_ne_run _ _ o hrefuse
  · cases hrefuse
  · cases hrefuse

theorem neverRuns_switchOn (opt : Opt) (p : Progress) : NeverRuns (switchOn opt p) := by
  intro o h
  cases opt <;> cases h

theorem neverRuns_assign (opt : Opt) (value : String) (p : Progress) : NeverRuns (assign opt value p) := by
  intro o h
  rw [assign.eq_def] at h
  dsimp only at h
  split at h
  case h_3 => split at h <;> cases h
  all_goals cases h

theorem neverRuns_takeOption (opt : Opt) (attached : Attached) (p : Progress) :
    NeverRuns (takeOption opt attached p) := by
  rw [takeOption.eq_def]
  split
  · exact neverRuns_switchOn opt p
  all_goals
    split
    · exact neverRuns_assign _ _ _
    · exact neverRuns_refuse _ _

theorem neverRuns_settled (p : Progress) : NeverRuns (settled p) := by
  intro o h
  rw [settled] at h
  split at h <;> cases h

theorem neverRuns_take (p : Progress) (a : Argument) : NeverRuns (take p a) := by
  cases a with
  | plain word =>
    rw [take]
    split
    · exact neverRuns_assign _ _ _
    · exact neverRuns_ok _
  | unknown word => exact (neverRuns_settled p).bind fun _ => neverRuns_ok _
  | option opt attached => exact (neverRuns_settled p).bind fun _ => neverRuns_takeOption _ _ _

theorem neverRuns_foldlM (as : List Argument) (p : Progress) : NeverRuns (as.foldlM take p) := by
  induction as generalizing p with
  | nil => exact neverRuns_ok p
  | cons a as ih =>
    rw [List.foldlM_cons]
    exact (neverRuns_take p a).bind ih

theorem neverRuns_takeAll (as : List Argument) : NeverRuns (takeAll as) :=
  (neverRuns_foldlM as {}).bind neverRuns_settled

end NoRun

/-- Arguments that ask for a run are read word by word, and there is a use for each of them. -/
theorem reads_of_parse {arguments : List String} {o : Options} (h : parse arguments = .run o) :
    Reads {} arguments o := by
  rw [parse] at h
  split at h
  · cases h
  · next as behind hsplit =>
    split at h
    · next result hall => exact absurd (hall.trans (congrArg Except.error h)) (neverRuns_takeAll as o)
    · next p hall =>
      obtain ⟨q, hfold, hsettled⟩ := eq_ok_of_bind hall
      obtain ⟨hpending, rfl⟩ := settled_eq_ok hsettled
      dsimp only at h
      split at h
      · next hextras =>
        cases h
        exact (readsOn_of_none rfl).mp (readsOn_of_split hsplit hfold hpending (List.isEmpty_iff.mp hextras))
      · cases h

/-! ### Options that are given -/

section Given

variable {word name name' value : String} {rest words arguments : List String} {o o' : Options}

theorem given_cons (hword : word ≠ "--") :
    Given name (word :: rest) ↔ Calls word name ∨ Given name rest := by
  simp [Given, hword]

theorem given_cons_of_calls (h : Calls word name') :
    Given name (word :: rest) ↔ name' = name ∨ Given name rest := by
  rw [given_cons h.ne_hyphens]
  exact or_congr_left ⟨h.unique, fun heq => heq ▸ h⟩

theorem given_cons_of_isPlain (h : IsPlain word) : Given name (word :: rest) ↔ Given name rest := by
  rw [given_cons h.1, or_iff_right (h.2 name).1]

/-- A word with an equals sign is no name. -/
theorem given_cons_of_callsWith (h : CallsWith word name' value) :
    Given name (word :: rest) ↔ Given name rest := by
  have hsign : '=' ∈ word.toList := by
    obtain ⟨called, -, rfl⟩ := h
    simp
  have hword : word ≠ "--" := by
    rintro rfl
    exact absurd hsign (by decide)
  rw [given_cons hword, or_iff_right fun hcalls => hcalls.cases.1 hsign]

/-- Words that give a value to an option call no other one. -/
theorem given_append_of_gives (h : Gives name' value words) (hne : name' ≠ name) :
    Given name (words ++ rest) ↔ Given name rest := by
  cases h with
  | apart hcalls hplain =>
    rw [List.cons_append, given_cons_of_calls hcalls, or_iff_right hne]
    exact given_cons_of_isPlain hplain
  | attached hcalls => exact given_cons_of_callsWith hcalls

theorem not_given_hyphens : ¬ Given name ("--" :: rest) := by
  simp [Given]

/-- A switch is on after some words exactly if it was on before them or some word calls it. -/
theorem Reads.switches (h : Reads o words o') :
    (o'.ci = true ↔ o.ci = true ∨ Given "--ci" words) ∧
      (o'.json = true ↔ o.json = true ∨ Given "--json" words) ∧
      (o'.strict = true ↔ o.strict = true ∨ Given "--strict" words) ∧
      (o'.verbose = true ↔ o.verbose = true ∨ Given "--verbose" words) := by
  induction h with
  | nil => simp [Given]
  | ci hcalls _ ih => simpa [given_cons_of_calls hcalls] using ih
  | json hcalls _ ih => simpa [given_cons_of_calls hcalls] using ih
  | strict hcalls _ ih => simpa [given_cons_of_calls hcalls] using ih
  | verbose hcalls _ ih => simpa [given_cons_of_calls hcalls] using ih
  | config hgives _ ih => simpa [given_append_of_gives hgives] using ih
  | ignore hgives _ ih => simpa [given_append_of_gives hgives] using ih
  | workers hgives _ _ ih => simpa [given_append_of_gives hgives] using ih
  | path hplain _ ih => simpa [given_cons_of_isPlain hplain] using ih
  | hyphens => simp [not_given_hyphens]
  | behind => simp [not_given_hyphens]

/-- Arguments that ask for a run have each option without a value in effect exactly if it is given. -/
theorem switches_of_parse (h : parse arguments = .run o) :
    (o.ci = true ↔ Given "--ci" arguments) ∧ (o.json = true ↔ Given "--json" arguments) ∧
      (o.strict = true ↔ Given "--strict" arguments) ∧ (o.verbose = true ↔ Given "--verbose" arguments) := by
  simpa using (reads_of_parse h).switches

/-- A shorter name counts if it is short for one option, and nothing counts behind two hyphens. -/
example : Given "--verbose" ["src", "--verb"] ∧ ¬ Given "--verbose" ["src", "--ver"] ∧
    ¬ Given "--verbose" ["--", "--verbose"] := by
  decide

end Given

end FlagAudit.Command
