import FlagAudit.Proofs.Detect.Definitions
import FlagAudit.Proofs.Detect.LiteralTests
import FlagAudit.Proofs.Text.LineEndings

/-!
# Line endings do not change what is found

Definitions and dead conditionals have blanks and ends of lines in them only where a carriage return before
the line feed may be. So a text with such line endings has the same definitions and dead conditionals at the
same lines and columns as one without (`findings_withReturns`). A condition is shown as it is written, with
the line endings of its text.
-/

namespace FlagAudit.Detect

open Text (Cursor InLine Position SeesThrough behind? firstSome? oneOf? place trimStart withReturns
  withoutReturns)

variable {s rest name : List Char} {outcome : Bool} {j : Nat}

/-! ### Definitions -/

/-- In both texts, the same name is given a value. -/
theorem assigned?_withReturns (s : List Char) :
    assigned? (withReturns s) = (assigned? s).map (Prod.map id withReturns) := by
  cases s with
  | nil => rfl
  | cons c s =>
    by_cases hc : c = '\n'
    · subst hc
      have hreturn : initial.accepts '\r' = false := by decide
      have hfeed : initial.accepts '\n' = false := by decide
      simp [assigned?, hreturn, hfeed]
    · have hmedial : (withReturns s).dropWhile (fun d => medial.accepts d) =
          withReturns (s.dropWhile fun d => medial.accepts d) :=
        Text.dropWhile_withReturns (by decide) s
      have hname : (withReturns s).takeWhile (fun d => medial.accepts d) =
          s.takeWhile fun d => medial.accepts d :=
        Text.takeWhile_withReturns_eq (by decide) (by decide) s
      have hequals : ∀ t : List Char, (withReturns t).head? = some '=' ↔ t.head? = some '=' := by
        intro t
        have hhead := Text.head?_any_withReturns (p := (· == '=')) (by decide) t
        simpa [Option.any_eq_true] using Bool.eq_iff_iff.mp hhead
      rw [Text.withReturns_cons hc, assigned?, assigned?, hmedial, hname,
        Text.dropWhile_withReturns (by decide), Text.takeWhile_withReturns (by decide)]
      simp only [hequals]
      split <;> rfl

/-- A name that is given a value in a text. -/
theorem exists_assignsWith_withReturns_iff :
    (∃ blanks rest, AssignsWith (withReturns s) name blanks rest) ↔
      ∃ blanks rest, AssignsWith s name blanks rest := by
  simp only [← assigned?_eq_some_iff, assigned?_withReturns, Option.map_eq_some_iff, Prod.exists,
    Prod.map_apply, id_eq, Prod.mk.injEq]
  constructor
  · rintro ⟨_, _, blanks, h, rfl, rfl⟩
    exact ⟨blanks, h⟩
  · rintro ⟨blanks, h⟩
    exact ⟨_, _, blanks, h, rfl, rfl⟩

/-- Definitions start at the offsets that those without carriage returns become. -/
theorem startsAt_withReturns_iff :
    StartsAt (withReturns s) j name ↔ ∃ i, j = place s i ∧ i ≤ s.length ∧ StartsAt s i name := by
  have hiff : ∀ i ≤ s.length, StartsAt (withReturns s) (place s i) name ↔ StartsAt s i name := by
    intro i hi
    have hassigns : (∃ blanks rest, AssignsWith ((withReturns s).drop (place s i)) name blanks rest) ↔
        ∃ blanks rest, AssignsWith (s.drop i) name blanks rest := by
      rw [Text.drop_place, exists_assignsWith_withReturns_iff]
    have hplaced : (place s i = 0 ∨
        ∃ b, (withReturns s)[place s i - 1]? = some b ∧ Text.isBlank b = true) ↔
          (i = 0 ∨ ∃ b, s[i - 1]? = some b ∧ Text.isBlank b = true) := by
      rcases Nat.eq_zero_or_pos i with rfl | hpos
      · exact iff_of_true (.inl rfl) (.inl rfl)
      · have hplace : 0 < place s i := Text.place_lt_place hpos hi
        rw [Text.getElem?_place_pred hpos hi]
        exact or_congr_left (iff_of_false (Nat.ne_of_gt hplace) (Nat.ne_of_gt hpos))
    exact ⟨fun h => ⟨hassigns.mp h.assigns, hplaced.mp h.placed⟩,
      fun h => ⟨hassigns.mpr h.assigns, hplaced.mpr h.placed⟩⟩
  constructor
  · intro h
    rcases Text.exists_place (Nat.le_of_lt h.lt_length) with ⟨i, hi, rfl⟩ | ⟨rest, hrest⟩
    · exact ⟨i, rfl, hi, (hiff i hi).mp h⟩
    · -- No name begins with a line feed.
      obtain ⟨blanks, behind, hassigns⟩ := h.assigns
      obtain ⟨x, hx, hinitial⟩ := hassigns.getElem?_zero
      rw [hrest] at hx
      cases hx
      exact absurd (accepts_initial.mpr hinitial) (by decide)
  · rintro ⟨i, rfl, hi, h⟩
    exact (hiff i hi).mpr h

theorem starts_withReturns (s : List Char) :
    starts (withReturns s) = (starts s).map fun start => (place s start.1, start.2) := by
  refine starts_eq_of_mem_iff ?_ fun start => ?_
  · rw [List.pairwise_map]
    exact (pairwise_starts s).imp_of_mem fun _ hb hlt =>
      Text.place_lt_place hlt (Nat.le_of_lt (mem_starts_iff.mp hb).lt_length)
  · simp only [startsAt_withReturns_iff, List.mem_map, mem_starts_iff, Prod.ext_iff, Prod.exists]
    constructor
    · rintro ⟨i, name, h, hi, rfl⟩
      exact ⟨i, hi.symm, Nat.le_of_lt h.lt_length, h⟩
    · rintro ⟨i, hi, -, h⟩
      exact ⟨i, _, h, hi.symm, rfl⟩

/-- The definitions are the same. -/
theorem definitions_withReturns (content : List Char) (prefixes : List String) (file : String) :
    definitions (withReturns content) prefixes file = definitions content prefixes file := by
  rw [definitions_eq_map, definitions_eq_map, starts_withReturns, List.filter_map, List.map_map]
  refine List.map_congr_left fun start hstart => ?_
  have hle := Nat.le_of_lt (mem_starts_iff.mp (List.mem_of_mem_filter hstart)).lt_length
  rw [Function.comp_apply, definitionOf, definitionOf, Position.ofOffset_place hle]

/-! ### Tests and declarations -/

/-- In both texts, a test is read if its condition is. -/
theorem test?_withReturns {condition : List Char → Option (List Char)}
    (h : ∀ s, condition (withReturns s) = (condition s).map withReturns) (s : List Char) :
    test? condition (withReturns s) = (test? condition s).map withReturns := by
  have hif := Text.behind?_withReturns (by decide : InLine ['i', 'f']) s
  have hopen := Text.behind?_withReturns (by decide : InLine ['('])
  have hclose := Text.behind?_withReturns (by decide : InLine [')'])
  simp only [test?, Option.bind_eq_bind, hif, Option.bind_map, Option.map_bind, Function.comp_def,
    Text.trimStart_withReturns, hopen, hclose, h]

/-- A test starts with `if`, so none starts at a line ending. -/
theorem test?_eq_none {condition : List Char → Option (List Char)} {x : Char}
    (hx : x = '\r' ∨ x = '\n') (s : List Char) : test? condition (x :: s) = none := by
  rcases hx with rfl | rfl <;> rfl

theorem literalTest?_withReturns (outcome : Bool) (s : List Char) :
    literalTest? outcome (withReturns s) = (literalTest? outcome s).map withReturns := by
  have hwords : ∀ w ∈ testedLiterals outcome, InLine w := by
    cases outcome <;> decide
  refine test?_withReturns (fun s => ?_) s
  rw [Text.oneOf?_withReturns hwords]
  cases oneOf? (testedLiterals outcome) s <;> rfl

theorem upperName?_withReturns (s : List Char) :
    upperName? (withReturns s) = (upperName? s).map (Prod.map id withReturns) := by
  cases s with
  | nil => rfl
  | cons c s =>
    by_cases hc : c = '\n'
    · subst hc
      rfl
    · rw [Text.withReturns_cons hc, upperName?, upperName?,
        Text.takeWhile_withReturns_eq (by decide) (by decide), Text.dropWhile_withReturns (by decide)]
      split <;> rfl

/-- Without the carriage return that may be at its start. -/
def skipReturn : List Char → List Char
  | '\r' :: rest => rest
  | rest => rest

/-- The end of a statement. At the end of a line the line feed stays behind it, but not the carriage
return. -/
theorem statementEnd?_withReturns (h : '\r' ∉ s) :
    (statementEnd? (withReturns s)).map skipReturn =
      (statementEnd? s).map fun rest => skipReturn (withReturns rest) := by
  have hdrop := Text.dropWhile_withReturns (p := fun c => c == ' ' || c == '\t') (by decide) s
  have hmem : '\r' ∉ s.dropWhile fun c => c == ' ' || c == '\t' :=
    fun hmem => h ((List.dropWhile_suffix _).subset hmem)
  rw [statementEnd?, statementEnd?, hdrop]
  generalize s.dropWhile (fun c => c == ' ' || c == '\t') = behind at hmem
  cases behind with
  | nil => rfl
  | cons c rest =>
    rw [List.mem_cons, not_or] at hmem
    by_cases hfeed : c = '\n'
    · subst hfeed
      rfl
    · by_cases hsemicolon : c = ';'
      · subst hsemicolon
        rfl
      · -- No statement ends at any other character, in neither text.
        rw [Text.withReturns_cons hfeed]
        split <;> split <;> simp_all

/-- A reader that reads nothing at a carriage return need not start there. -/
theorem firstSome?_skipReturn {α : Type} {read : List Char → Option α}
    (h : ∀ s, read ('\r' :: s) = none) (s : List Char) :
    firstSome? read (skipReturn s) = firstSome? read s := by
  unfold skipReturn
  split
  · rw [firstSome?, h]
  · rfl

/-- A constant that is given a literal at the start of a text, and what is behind the literal. -/
def givenLiteral? (outcome : Bool) (s : List Char) : Option (Constant × List Char) := do
  let s ← behind? "const".toList s
  if !s.head?.any Text.isBlank then none
  let (name, s) ← upperName? (trimStart s)
  let s ← behind? ['='] (trimStart s)
  let (literal, s) ← oneOf? (literals outcome) (trimStart s)
  return (⟨name, literal⟩, s)

/-- A declaration ends behind its literal. -/
theorem declaration?_eq_bind (outcome : Bool) (s : List Char) :
    declaration? outcome s = (givenLiteral? outcome s).bind fun (d, close) =>
      if close.head?.any Text.isWord then none else (statementEnd? close).map (d, ·) := by
  simp only [declaration?, givenLiteral?, Option.bind_eq_bind, Option.bind_none, Option.bind_assoc]
  congr 1
  funext s₁
  split
  · rfl
  · simp only [Option.bind_assoc]
    congr 1
    funext named
    congr 1
    funext s₃
    congr 1
    funext given
    simp only [Option.pure_def, Option.bind_some, Option.map_eq_bind]
    rfl

theorem inLine_of_mem_literals : ∀ literal ∈ literals outcome, InLine literal := by
  cases outcome <;> decide

theorem givenLiteral?_withReturns (outcome : Bool) (s : List Char) :
    givenLiteral? outcome (withReturns s) =
      (givenLiteral? outcome s).map (Prod.map id withReturns) := by
  have hconst := Text.behind?_withReturns (by decide : InLine "const".toList) s
  have hequals := Text.behind?_withReturns (by decide : InLine ['='])
  have hliterals := Text.oneOf?_withReturns (inLine_of_mem_literals : ∀ w ∈ literals outcome, InLine w)
  have hblank := Text.head?_any_withReturns (p := Text.isBlank) (by decide)
  simp only [givenLiteral?, Option.bind_eq_bind, hconst, Option.bind_map, Option.map_bind,
    Function.comp_def, hblank]
  congr 1
  funext s₁
  split
  · rfl
  · simp only [Text.trimStart_withReturns, upperName?_withReturns, Option.bind_map, Option.map_bind,
      Prod.map_fst, Prod.map_snd, id_eq, hequals, hliterals, Function.comp_def]
    rfl

theorem suffix_of_upperName? (h : upperName? s = some (name, rest)) : rest <:+ s := by
  cases s with
  | nil => cases h
  | cons c s =>
    rw [upperName?, Option.ite_none_right_eq_some] at h
    obtain ⟨-, heq⟩ := h
    cases heq
    exact (List.dropWhile_suffix _).trans (List.suffix_cons c s)

theorem suffix_of_givenLiteral? {d : Constant} (h : givenLiteral? outcome s = some (d, rest)) :
    rest <:+ s := by
  simp only [givenLiteral?, Option.bind_eq_bind, Option.bind_none, Option.bind_eq_some_iff,
    Option.ite_none_left_eq_some, Option.pure_def, Option.some.injEq, Prod.mk.injEq, Prod.exists] at h
  obtain ⟨s₁, h₁, -, name, s₂, h₂, s₃, h₃, literal, s₄, h₄, -, rfl⟩ := h
  have htrim : ∀ s : List Char, trimStart s <:+ s := fun s => List.dropWhile_suffix _
  have hequals := (Text.suffix_of_oneOf? h₄).trans (htrim s₃)
  have hname := hequals.trans ((Text.suffix_of_behind? h₃).trans (htrim s₂))
  have hconst := hname.trans ((suffix_of_upperName? h₂).trans (htrim s₁))
  exact hconst.trans (Text.suffix_of_behind? h₁)

theorem declaration?_withReturns (h : '\r' ∉ s) :
    (declaration? outcome (withReturns s)).map (Prod.map id skipReturn) =
      (declaration? outcome s).map (Prod.map id (skipReturn ∘ withReturns)) := by
  rw [declaration?_eq_bind, declaration?_eq_bind, givenLiteral?_withReturns]
  cases hgiven : givenLiteral? outcome s with
  | none => rfl
  | some given =>
    obtain ⟨d, close⟩ := given
    have hclose : '\r' ∉ close := fun hmem => h ((suffix_of_givenLiteral? hgiven).subset hmem)
    have hend := statementEnd?_withReturns hclose
    simp only [Option.map_some, Option.bind_some, Prod.map_apply, id_eq,
      Text.head?_any_withReturns (p := Text.isWord) (by decide)]
    split
    · rfl
    · rw [Option.map_map, Option.map_map]
      have hpair := congrArg (Option.map fun rest => (d, rest)) hend
      rw [Option.map_map, Option.map_map] at hpair
      exact hpair

/-- The name and the literal of a declared constant are in one line. -/
theorem Declares.inLine {d : Constant} (h : Declares outcome s d rest) :
    InLine d.name ∧ InLine d.literal := by
  obtain ⟨b₁, b₂, b₃, assigned, close, -, -, -, -, hassigns, -⟩ := h.eq
  have hname : ∀ x, medial.accepts x = false → x ∉ d.name := by
    intro x hx hmem
    exact Bool.false_ne_true (hx.symm.trans (accepts_medial.mpr (hassigns.isName.isMedial x hmem)))
  exact ⟨⟨hname '\r' (by decide), hname '\n' (by decide)⟩, inLine_of_mem_literals _ h.literal⟩

theorem testedConstant?_withReturns (h : '\r' ∉ s) :
    testedConstant? outcome (withReturns s) =
      (testedConstant? outcome s).map (Prod.map id withReturns) := by
  have hdeclaration : (declaration? outcome (withReturns s)).map (Prod.map id skipReturn) =
      (declaration? outcome s).map (Prod.map id (skipReturn ∘ withReturns)) :=
    declaration?_withReturns h
  rw [testedConstant?, testedConstant?]
  cases hdeclared : declaration? outcome s with
  | none =>
    rw [hdeclared, Option.map_none, Option.map_eq_none_iff] at hdeclaration
    rw [hdeclaration]
    rfl
  | some declared =>
    obtain ⟨d, behind⟩ := declared
    rw [hdeclared, Option.map_some, Option.map_eq_some_iff] at hdeclaration
    obtain ⟨⟨d', behind'⟩, hdeclared', heq⟩ := hdeclaration
    obtain ⟨rfl, hbehind⟩ := Prod.mk.inj heq
    have hname := (declaration?_eq_some_iff.mp hdeclared).inLine.1
    have hfirst : firstSome? (test? (behind? d'.name)) behind' =
        (firstSome? (test? (behind? d'.name)) behind).map withReturns := by
      have hskip : ∀ t, firstSome? (test? (behind? d'.name)) (skipReturn t) =
          firstSome? (test? (behind? d'.name)) t :=
        firstSome?_skipReturn (test?_eq_none (.inl rfl))
      rw [← hskip behind', show skipReturn behind' = skipReturn (withReturns behind) from hbehind, hskip]
      exact Text.firstSome?_withReturns (test?_withReturns (Text.behind?_withReturns hname))
        (test?_eq_none (.inl rfl)) (test?_eq_none (.inr rfl)) behind
    simp only [hdeclared', Option.bind_eq_bind, Option.bind_some, id_eq, hfirst,
      Option.bind_map, Option.map_bind]
    rfl

/-! ### Dead conditionals -/

/-- What is behind what a rule reads ends the text. -/
theorem Rule.suffix_of_read? {rule : Rule} {shown : List Char} (h : rule.read? s = some (shown, rest)) :
    rest <:+ s := by
  cases rule with
  | literal outcome =>
    obtain ⟨-, rfl⟩ := read?_literal_iff.mp h
    exact List.suffix_append shown rest
  | constant outcome =>
    obtain ⟨d, hspans, -⟩ := read?_constant_iff.mp h
    exact hspans.suffix

/-- A constant is shown in one line. -/
theorem Declares.inLine_shown {d : Constant} (h : Declares outcome s d rest) : InLine d.shown := by
  have hconst : InLine "const ".toList := by decide
  have hequals : InLine " = ".toList := by decide
  obtain ⟨hname, hliteral⟩ := h.inLine
  exact ((hconst.append hname).append hequals).append hliteral

/-- A rule reads the same in both texts, and shows it as it is written. -/
theorem Rule.read?_withReturns (rule : Rule) (h : '\r' ∉ s) :
    rule.read? (withReturns s) = (rule.read? s).map (Prod.map withReturns withReturns) := by
  cases rule with
  | literal outcome =>
    rw [Rule.read?, Rule.read?, literalTest?_withReturns]
    cases hread : literalTest? outcome s with
    | none => rfl
    | some rest =>
      obtain ⟨text, -, rfl⟩ := literalTest?_eq_some_iff.mp hread
      simp [Text.withReturns_append]
  | constant outcome =>
    rw [Rule.read?, Rule.read?, testedConstant?_withReturns h]
    cases hread : testedConstant? outcome s with
    | none => rfl
    | some found =>
      obtain ⟨d, rest⟩ := found
      obtain ⟨behind, n, hdeclares, -⟩ := testedConstant?_eq_some_iff.mp hread
      have hshown : withReturns d.shown = d.shown :=
        Text.withReturns_eq_self hdeclares.inLine_shown.2
      exact congrArg (fun shown => some (shown, withReturns rest)) hshown.symm

/-- No rule reads anything at a line ending. -/
theorem Rule.read?_eq_none (rule : Rule) {x : Char} (hx : x = '\r' ∨ x = '\n') (s : List Char) :
    rule.read? (x :: s) = none := by
  cases rule with
  | literal outcome =>
    rw [Rule.read?, literalTest?, test?_eq_none hx]
    rfl
  | constant outcome =>
    rcases hx with rfl | rfl <;> rfl

theorem Rule.reader_eq_none_iff {rule : Rule} {nonempty : Bool} {c : Cursor} :
    rule.reader nonempty c = none ↔ rule.read? c.after = none := by
  rw [Rule.reader]
  cases rule.read? c.after <;> simp

theorem Rule.solid (rule : Rule) (s : List Char) : Text.Solid rule.reader s := by
  cases rule with
  | literal outcome => exact solid_literal outcome s
  | constant outcome => exact solid_constant outcome s

/-- A rule takes both line endings for the same. -/
theorem Rule.seesThrough (rule : Rule) (h : '\r' ∉ s) : SeesThrough rule.reader s withReturns := by
  have hread : ∀ {c c' : Cursor}, Cursor.Mirrors s c c' →
      rule.read? c'.after = (rule.read? c.after).map (Prod.map withReturns withReturns) := by
    intro c c' hc
    rw [hc.after, rule.read?_withReturns]
    rw [hc.left.after]
    exact fun hmem => h (List.mem_of_mem_drop hmem)
  refine ⟨rule.solid s, rule.solid _, ?_, ?_, ?_⟩
  · intro c c' n shown hc hhere
    obtain ⟨rest, hrest, rfl⟩ := Rule.reader_eq_some_iff.mp hhere
    have hrest' : rule.read? c'.after = some (withReturns shown, withReturns rest) := by
      rw [hread hc, hrest]
      rfl
    refine ⟨_, Rule.reader_eq_some_iff.mpr ⟨_, hrest', rfl⟩, ?_⟩
    rw [← List.suffix_iff_eq_drop.mp (Rule.suffix_of_read? hrest),
      ← List.suffix_iff_eq_drop.mp (Rule.suffix_of_read? hrest')]
  · intro c c' hc hnone
    rw [Rule.reader_eq_none_iff] at hnone ⊢
    rw [hread hc, hnone]
    rfl
  · intro c x rest hafter hx
    rw [Rule.reader_eq_none_iff, hafter]
    exact rule.read?_eq_none hx rest

/-- A dead conditional as it is shown in a text with carriage returns. -/
def shownWithReturns (d : DeadConditional) : DeadConditional :=
  { d with condition := String.ofList (withReturns d.condition.toList) }

/-- What a rule reports of a place and what is shown there. -/
def Rule.report (rule : Rule) (file : String) (site : Position × List Char) : DeadConditional :=
  ⟨file, site.1.line, site.1.column, String.ofList site.2, rule.outcome⟩

theorem deadConditionalsOf_eq_map_located (content : List Char) (file : String) (rule : Rule) :
    deadConditionalsOf content file rule =
      ((Text.hits rule.reader content).map (Text.Hit.located content)).map (rule.report file) := by
  rw [List.map_map]
  rfl

theorem deadConditionalsOf_withReturns {content : List Char} (h : '\r' ∉ content) (file : String)
    (rule : Rule) : deadConditionalsOf (withReturns content) file rule =
      (deadConditionalsOf content file rule).map shownWithReturns := by
  rw [deadConditionalsOf_eq_map_located, deadConditionalsOf_eq_map_located,
    (rule.seesThrough h).hits_withReturns, List.map_map, List.map_map (f := rule.report file)]
  refine List.map_congr_left fun site _ => ?_
  simp [Rule.report, shownWithReturns]

/-- The dead conditionals are the same, as they are shown in each text. -/
theorem deadConditionals_withReturns {content : List Char} (h : '\r' ∉ content) (file : String) :
    deadConditionals (withReturns content) file =
      (deadConditionals content file).map shownWithReturns := by
  rw [deadConditionals, deadConditionals, List.map_flatMap]
  exact congrArg rules.flatMap (funext (deadConditionalsOf_withReturns h file))

/-- Two dead conditionals are the same, but for carriage returns in what is shown. -/
structure SameButReturns (d d' : DeadConditional) : Prop where
  /-- The file. -/
  file : d.file = d'.file
  /-- The line. -/
  line : d.line = d'.line
  /-- The column. -/
  column : d.column = d'.column
  /-- Whether the condition always holds or never does. -/
  outcome : d.outcome = d'.outcome
  /-- The condition. -/
  condition : withoutReturns d.condition.toList = withoutReturns d'.condition.toList

theorem sameButReturns_shownWithReturns (d : DeadConditional) :
    SameButReturns (shownWithReturns d) d where
  file := rfl
  line := rfl
  column := rfl
  outcome := rfl
  condition := by
    rw [shownWithReturns, String.toList_ofList]
    exact Text.withoutReturns_withReturns _

/-- Carriage returns before all line feeds of a text that has no others do not change what is found in it:
its definitions are the same, and its dead conditionals are the same one by one, but for the carriage
returns in the conditions. -/
theorem findings_withReturns {content : List Char} (h : '\r' ∉ content) (prefixes : List String)
    (file : String) :
    definitions (withReturns content) prefixes file = definitions content prefixes file ∧
      List.Forall₂ SameButReturns (deadConditionals (withReturns content) file)
        (deadConditionals content file) := by
  refine ⟨definitions_withReturns content prefixes file, ?_⟩
  rw [deadConditionals_withReturns h, List.forall₂_map_left_iff]
  exact List.forall₂_same.mpr fun d _ => sameButReturns_shownWithReturns d

/-- A test with a line ending in it, and a declaration that the end of its line ends. -/
def acrossLines : List Char :=
  "if (\n1) \x7b\x7d\nconst ON = true\nif (ON) \x7b\x7d\n".toList

/-- The test, the constant and a definition are found in it, with either line ending. -/
theorem findings_acrossLines :
    '\r' ∉ acrossLines ∧
      deadConditionals acrossLines "f" =
        [⟨"f", 1, 1, "if (\n1)", true⟩, ⟨"f", 3, 1, "const ON = true", true⟩] ∧
      definitions acrossLines ["ON"] "f" = [⟨"ON", "f", 3, 7⟩] ∧
      definitions (withReturns acrossLines) ["ON"] "f" = definitions acrossLines ["ON"] "f" ∧
      List.Forall₂ SameButReturns (deadConditionals (withReturns acrossLines) "f")
        (deadConditionals acrossLines "f") :=
  ⟨by decide, by decide +kernel, by decide +kernel, findings_withReturns (by decide) ["ON"] "f"⟩

end FlagAudit.Detect
