import FlagAudit.Proofs.Detect.Definitions

/-!
# What stands behind the name of a definition

A definition is found by its name and the equals sign behind it, and nothing looks at what comes after the
equals sign. So it may just as well be the first character of a comparison or of an arrow: which sign is
there makes no difference (`definitions_before_signs`).
-/

namespace FlagAudit.Detect

/-! ### Signs -/

/-- The signs that begin with an equals sign. -/
inductive Sign where
  /-- A value is given. -/
  | assignment
  /-- Values are compared. -/
  | comparison
  /-- Values are compared together with their types. -/
  | strictComparison
  /-- What a function gives stands behind it. -/
  | arrow
  deriving DecidableEq, Repr

/-- How a sign is written. -/
def Sign.text : Sign → List Char
  | .assignment => ['=']
  | .comparison => ['=', '=']
  | .strictComparison => ['=', '=', '=']
  | .arrow => ['=', '>']

/-- The sign at the start of a text. It is as long as possible. -/
def sign? : List Char → Option Sign
  | '=' :: '=' :: '=' :: _ => some .strictComparison
  | '=' :: '=' :: _ => some .comparison
  | '=' :: '>' :: _ => some .arrow
  | '=' :: _ => some .assignment
  | _ => none

/-- In a text, there are blanks and then a sign behind a name at an offset. -/
def SignBehind (content : List Char) (i : Nat) (name : List Char) (sign : Sign) : Prop :=
  ∃ blanks behind, content.drop i = name ++ (blanks ++ behind) ∧
    (∀ b ∈ blanks, Text.isBlank b = true) ∧ sign? behind = some sign

variable {content s name blanks rest : List Char} {prefixes : List String} {file : String} {i : Nat}
  {sign sign' : Sign}

/-- A sign begins with an equals sign. -/
theorem exists_cons_of_sign? (h : sign? s = some sign) : ∃ rest, s = '=' :: rest := by
  fun_cases sign? s with
  | case1 rest => exact ⟨_, rfl⟩
  | case2 rest => exact ⟨_, rfl⟩
  | case3 rest => exact ⟨_, rfl⟩
  | case4 rest => exact ⟨rest, rfl⟩
  | case5 => simp_all [sign?]

/-- What begins with an equals sign begins with a sign. -/
theorem exists_sign? (rest : List Char) : ∃ sign, sign? ('=' :: rest) = some sign := by
  unfold sign?
  split <;> simp_all

/-- A text that begins with an equals sign is a sign and what is behind it. -/
theorem Sign.text_append (sign : Sign) (rest : List Char) :
    ∃ behind, sign.text ++ rest = '=' :: behind := by
  cases sign <;> exact ⟨_, rfl⟩

/-! ### Definitions before signs -/

/-- A name that is given a value has a sign behind it, and a name with a sign behind it is given a
value. -/
theorem assignsWith_iff_signBehind :
    (∃ blanks rest, AssignsWith (content.drop i) name blanks rest) ↔
      IsName name ∧ ∃ sign, SignBehind content i name sign := by
  constructor
  · rintro ⟨blanks, rest, heq, hname, hblanks⟩
    obtain ⟨sign, hsign⟩ := exists_sign? rest
    exact ⟨hname, sign, blanks, _, heq, hblanks, hsign⟩
  · rintro ⟨hname, sign, blanks, behind, heq, hblanks, hsign⟩
    obtain ⟨rest, rfl⟩ := exists_cons_of_sign? hsign
    exact ⟨blanks, rest, heq, hname, hblanks⟩

/-- There is only one sign behind a name. -/
theorem SignBehind.unique (h : SignBehind content i name sign) (h' : SignBehind content i name sign') :
    sign = sign' := by
  obtain ⟨blanks, behind, heq, hblanks, hsign⟩ := h
  obtain ⟨blanks', behind', heq', hblanks', hsign'⟩ := h'
  obtain ⟨rest, rfl⟩ := exists_cons_of_sign? hsign
  obtain ⟨rest', rfl⟩ := exists_cons_of_sign? hsign'
  -- The blanks end where the equals sign is.
  have hequals : Text.isBlank '=' = false := by decide
  have hdrop : (blanks ++ '=' :: rest).dropWhile Text.isBlank = '=' :: rest :=
    (takeWhile_append_stop hblanks hequals).2
  have hdrop' : (blanks' ++ '=' :: rest').dropWhile Text.isBlank = '=' :: rest' :=
    (takeWhile_append_stop hblanks' hequals).2
  rw [List.append_cancel_left (heq.symm.trans heq'), hdrop'] at hdrop
  rw [← hdrop, hsign'] at hsign
  exact (Option.some.inj hsign).symm

theorem SignBehind.lt_length (h : SignBehind content i name sign) : i < content.length := by
  obtain ⟨blanks, behind, heq, -, hsign⟩ := h
  obtain ⟨rest, rfl⟩ := exists_cons_of_sign? hsign
  have hlength := congrArg List.length heq
  simp only [List.length_drop, List.length_append, List.length_cons] at hlength
  omega

/-- The definition at an offset tells the offset and the name. -/
theorem definitionOf_injective {a b : Nat × List Char} (ha : a.1 ≤ content.length)
    (hb : b.1 ≤ content.length) (h : definitionOf content file a = definitionOf content file b) :
    a = b := by
  obtain ⟨hname, -, hline, hcolumn⟩ := Definition.mk.inj h
  exact Prod.ext (Text.Position.ofOffset_injective ha hb (Text.Position.eq_of_reported hline hcolumn))
    (String.ofList_injective hname)

theorem mem_definitions_iff {d : Definition} : d ∈ definitions content prefixes file ↔
    ∃ i name, d = definitionOf content file (i, name) ∧ StartsAt content i name ∧
      startsWithAny prefixes name = true := by
  simp only [definitions_eq_map, List.mem_map, List.mem_filter, mem_starts_iff, Prod.exists]
  constructor
  · rintro ⟨i, name, hstarts, rfl⟩
    exact ⟨i, name, rfl, hstarts⟩
  · rintro ⟨i, name, rfl, hstarts⟩
    exact ⟨i, name, hstarts, rfl⟩

/-- A definition is found where it starts. -/
theorem definitionOf_mem_iff (hi : i ≤ content.length) :
    definitionOf content file (i, name) ∈ definitions content prefixes file ↔
      StartsAt content i name ∧ startsWithAny prefixes name = true := by
  rw [mem_definitions_iff]
  constructor
  · rintro ⟨i', name', heq, hstarts⟩
    cases definitionOf_injective hi (Nat.le_of_lt hstarts.1.lt_length) heq
    exact hstarts
  · exact fun hstarts => ⟨i, name, rfl, hstarts⟩

/-- A name may be that of a definition, as far as it and what is before it are concerned. -/
structure CanDefine (content : List Char) (prefixes : List String) (i : Nat) (name : List Char) :
    Prop where
  /-- The name. -/
  isName : IsName name
  /-- What is before the name. -/
  placed : i = 0 ∨ ∃ b, content[i - 1]? = some b ∧ Text.isBlank b = true
  /-- What the name starts with. -/
  admitted : ∃ p ∈ prefixes, p.toList <+: name

theorem startsAt_iff_canDefine : StartsAt content i name ∧ startsWithAny prefixes name = true ↔
    CanDefine content prefixes i name ∧ ∃ sign, SignBehind content i name sign := by
  rw [startsWithAny_iff]
  constructor
  · rintro ⟨⟨hassigns, hplaced⟩, hbegins⟩
    obtain ⟨hname, hsign⟩ := assignsWith_iff_signBehind.mp hassigns
    exact ⟨⟨hname, hplaced, hbegins⟩, hsign⟩
  · rintro ⟨⟨hname, hplaced, hbegins⟩, hsign⟩
    exact ⟨⟨assignsWith_iff_signBehind.mpr ⟨hname, hsign⟩, hplaced⟩, hbegins⟩

/-- What is before an offset is the same in texts that agree up to it. -/
theorem canDefine_append_iff (before rest rest' : List Char) :
    CanDefine (before ++ rest) prefixes before.length name ↔
      CanDefine (before ++ rest') prefixes before.length name := by
  suffices h : ∀ rest rest', CanDefine (before ++ rest) prefixes before.length name →
      CanDefine (before ++ rest') prefixes before.length name from ⟨h rest rest', h rest' rest⟩
  rintro rest rest' ⟨hname, hplaced, hbegins⟩
  refine ⟨hname, ?_, hbegins⟩
  rcases Nat.eq_zero_or_pos before.length with hzero | hpos
  · exact .inl hzero
  · rcases hplaced with hzero | ⟨b, hbefore, hb⟩
    · exact .inl hzero
    · rw [List.getElem?_append_left (by omega)] at hbefore
      exact .inr ⟨b, by rwa [List.getElem?_append_left (by omega)], hb⟩

/-- A sign behind blanks is behind the name before them. -/
theorem exists_signBehind (before name rest : List Char) (hblanks : ∀ b ∈ blanks, Text.isBlank b = true)
    (sign : Sign) : ∃ longest, SignBehind (before ++ (name ++ (blanks ++ (sign.text ++ rest))))
      before.length name longest := by
  obtain ⟨behind, hbehind⟩ := sign.text_append rest
  obtain ⟨longest, hlongest⟩ := exists_sign? behind
  exact ⟨longest, blanks, _, List.drop_left, hblanks, hbehind ▸ hlongest⟩

/-- The definitions in a text are the names that can be defined where they are and have one of the signs
behind them, after blanks. There is only one such sign, and which one it is makes no difference: a name
before one sign is found just as it is before another. -/
theorem definitions_before_signs (prefixes : List String) (file : String) :
    (∀ content d, d ∈ definitions content prefixes file ↔
      ∃ i name sign, d = definitionOf content file (i, name) ∧ CanDefine content prefixes i name ∧
        SignBehind content i name sign) ∧
    (∀ content i name sign sign', SignBehind content i name sign → SignBehind content i name sign' →
      sign = sign') ∧
    ∀ before name blanks rest, (∀ b ∈ blanks, Text.isBlank b = true) →
      ∀ sign sign' : Sign,
        let content := before ++ (name ++ (blanks ++ (sign.text ++ rest)))
        let content' := before ++ (name ++ (blanks ++ (sign'.text ++ rest)))
        definitionOf content file (before.length, name) ∈ definitions content prefixes file ↔
          definitionOf content' file (before.length, name) ∈ definitions content' prefixes file := by
  refine ⟨fun content d => ?_, fun _ _ _ _ _ => SignBehind.unique, ?_⟩
  · simp only [mem_definitions_iff, startsAt_iff_canDefine]
    constructor
    · rintro ⟨i, name, rfl, hdefine, sign, hsign⟩
      exact ⟨i, name, sign, rfl, hdefine, hsign⟩
    · rintro ⟨i, name, sign, rfl, hdefine, hsign⟩
      exact ⟨i, name, rfl, hdefine, sign, hsign⟩
  · intro before name blanks rest hblanks sign sign' content content'
    rw [definitionOf_mem_iff (by simp [content]), definitionOf_mem_iff (by simp [content']),
      startsAt_iff_canDefine, startsAt_iff_canDefine]
    have hsign := exists_signBehind before name rest hblanks sign
    have hsign' := exists_signBehind before name rest hblanks sign'
    exact and_congr (canDefine_append_iff _ _ _) (iff_of_true hsign hsign')

/-- Not every definition is an assignment. -/
theorem not_always_assignment :
    ¬ ∀ content prefixes file, ∀ d ∈ definitions content prefixes file,
      ∃ i name, d = definitionOf content file (i, name) ∧ SignBehind content i name .assignment := by
  intro h
  have hmem : definitionOf "FEATURE_A == 1".toList "<string>" (0, "FEATURE_A".toList) ∈
      definitions "FEATURE_A == 1".toList ["FEATURE_"] "<string>" := by decide +kernel
  have hcomparison : SignBehind "FEATURE_A == 1".toList 0 "FEATURE_A".toList .comparison :=
    ⟨[' '], "== 1".toList, rfl, by simp [Text.isBlank], rfl⟩
  obtain ⟨i, name, heq, hassignment⟩ := h _ _ _ _ hmem
  cases definitionOf_injective (Nat.zero_le _) (Nat.le_of_lt hassignment.lt_length) heq
  exact absurd (hcomparison.unique hassignment) (by decide)

end FlagAudit.Detect
