import Mathlib.Data.Nat.Find
import FlagAudit.Detect.DeadConditionals
import FlagAudit.Proofs.Detect.Assignment

/-!
# Constants that are declared and tested

The readers of constants take a text apart from left to right. Here each of them is given as a relation
between a text, what is read at its start and what is behind: a declaration (`Declares`), a test
(`Tests`), and a declaration up to the first test of its constant (`Spans`). Every part of them has one
end only, so reading and relation agree in both directions.
-/

namespace FlagAudit.Detect

open Text (behind? oneOf? firstSome? trimStart)

variable {outcome : Bool} {s name rest : List Char} {d : Constant}

/-! ### Texts behind blanks -/

/-- Nothing but blanks. -/
def Blanks (s : List Char) : Prop := ∀ b ∈ s, Text.isBlank b = true

/-- Something that does not start with a blank. -/
def StartsInk (s : List Char) : Prop := ∃ c rest, s = c :: rest ∧ Text.isBlank c = false

theorem StartsInk.append (h : StartsInk s) (rest : List Char) : StartsInk (s ++ rest) := by
  obtain ⟨c, behind, rfl, hc⟩ := h
  exact ⟨c, behind ++ rest, rfl, hc⟩

theorem IsName.startsInk (h : IsName name) : StartsInk name := by
  obtain ⟨c, cs, rfl, hc, -⟩ := h
  exact ⟨c, cs, rfl, hc.isMedial.not_blank⟩

/-- What starts without a blank is what is left of a text without the blanks at its start. -/
theorem trimStart_eq_iff {t : List Char} (ht : StartsInk t) :
    trimStart s = t ↔ ∃ blanks, Blanks blanks ∧ s = blanks ++ t := by
  constructor
  · rintro rfl
    exact ⟨s.takeWhile Text.isBlank, fun b => List.mem_takeWhile_imp,
      List.takeWhile_append_dropWhile.symm⟩
  · rintro ⟨blanks, hblanks, rfl⟩
    obtain ⟨c, rest, rfl, hc⟩ := ht
    exact (takeWhile_append_stop hblanks hc).2

/-- A text has a part behind blanks. -/
theorem behind?_trimStart_iff {part : List Char} (hpart : StartsInk part) :
    behind? part (trimStart s) = some rest ↔
      ∃ blanks, Blanks blanks ∧ s = blanks ++ (part ++ rest) := by
  rw [Text.behind?_eq_some, trimStart_eq_iff (hpart.append rest)]

/-! ### Tests -/

/-- A text starts with a test of a name: `if` and the name in parentheses, with blanks anywhere in
between. -/
def Tests (name s rest : List Char) : Prop :=
  ∃ b₁ b₂ b₃, Blanks b₁ ∧ Blanks b₂ ∧ Blanks b₃ ∧
    s = ['i', 'f'] ++ (b₁ ++ (['('] ++ (b₂ ++ (name ++ (b₃ ++ ([')'] ++ rest))))))

theorem test?_eq_some_iff (hname : StartsInk name) :
    test? (behind? name) s = some rest ↔ Tests name s rest := by
  have hopen : StartsInk ['('] := ⟨_, _, rfl, by decide⟩
  have hclose : StartsInk [')'] := ⟨_, _, rfl, by decide⟩
  have hif : ∀ behind, behind? ['i', 'f'] s = some behind ↔ s = ['i', 'f'] ++ behind :=
    fun _ => Text.behind?_eq_some
  simp only [test?, Option.bind_eq_bind, Option.bind_eq_some_iff, hif, behind?_trimStart_iff hopen,
    behind?_trimStart_iff hname, behind?_trimStart_iff hclose]
  constructor
  · rintro ⟨_, rfl, _, ⟨b₁, h₁, rfl⟩, _, ⟨b₂, h₂, rfl⟩, b₃, h₃, rfl⟩
    exact ⟨b₁, b₂, b₃, h₁, h₂, h₃, rfl⟩
  · rintro ⟨b₁, b₂, b₃, h₁, h₂, h₃, rfl⟩
    exact ⟨_, rfl, _, ⟨b₁, h₁, rfl⟩, _, ⟨b₂, h₂, rfl⟩, b₃, h₃, rfl⟩

/-! ### Declarations -/

/-- A text has one of some words at its start. No word may begin with another one. -/
theorem oneOf?_eq_some_iff {words : List (List Char)} {w : List Char}
    (hwords : words.Pairwise fun v w => ¬ v <+: w ∧ ¬ w <+: v) :
    oneOf? words s = some (w, rest) ↔ w ∈ words ∧ s = w ++ rest := by
  induction words with
  | nil => simp [oneOf?]
  | cons v words ih =>
    obtain ⟨hv, hwords⟩ := List.pairwise_cons.mp hwords
    have hcons : oneOf? (v :: words) s =
        ((behind? v s).map (v, ·)).or (oneOf? words s) := by
      rw [oneOf?, List.findSome?_cons]
      cases (behind? v s).map (v, ·) <;> rfl
    rw [hcons, Option.or_eq_some_iff, ih hwords, Option.map_eq_some_iff, Option.map_eq_none_iff]
    constructor
    · rintro (⟨behind, hbehind, heq⟩ | ⟨-, hmem, heq⟩)
      · cases heq
        exact ⟨List.mem_cons_self, Text.behind?_eq_some.mp hbehind⟩
      · exact ⟨List.mem_cons_of_mem v hmem, heq⟩
    · rintro ⟨hmem, rfl⟩
      rcases List.mem_cons.mp hmem with rfl | hmem
      · exact .inl ⟨rest, Text.behind?_eq_some.mpr rfl, rfl⟩
      · refine .inr ⟨?_, hmem, rfl⟩
        rw [Option.eq_none_iff_forall_ne_some]
        intro behind hbehind
        have hbegins : v <+: w ++ rest := ⟨behind, (Text.behind?_eq_some.mp hbehind).symm⟩
        exact (List.prefix_or_prefix_of_prefix hbegins (List.prefix_append w rest)).elim
          (hv w hmem).1 (hv w hmem).2

theorem isNameStart_iff {c : Char} : isNameStart c = true ↔ IsInitial c := by
  rw [isNameStart, Bool.or_eq_true, beq_iff_eq, IsInitial]

theorem isNameChar_iff {c : Char} : isNameChar c = true ↔ IsMedial c := by
  rw [isNameChar, Bool.or_eq_true, Bool.or_eq_true, beq_iff_eq, or_assoc, IsMedial]

/-- A name that is given a value is read up to its end, since nothing behind it could be part of it. -/
theorem assigns_iff : (∃ behind, upperName? s = some (name, behind) ∧
      behind? ['='] (trimStart behind) = some rest) ↔ ∃ blanks, AssignsWith s name blanks rest := by
  have hequals : StartsInk ['='] := ⟨_, _, rfl, by decide⟩
  simp only [behind?_trimStart_iff hequals]
  constructor
  · rintro ⟨behind, hname, blanks, hblanks, rfl⟩
    cases s with
    | nil => cases hname
    | cons c s =>
      rw [upperName?, Option.ite_none_right_eq_some, Option.some.injEq, Prod.mk.injEq] at hname
      obtain ⟨hc, rfl, hbehind⟩ := hname
      refine ⟨blanks, ?_, ⟨c, _, rfl, isNameStart_iff.mp hc, fun x hx => ?_⟩, hblanks⟩
      · rw [List.cons_append, ← List.singleton_append (l := rest), ← hbehind,
          List.takeWhile_append_dropWhile]
      · exact isNameChar_iff.mp (List.mem_takeWhile_imp hx)
  · rintro ⟨blanks, rfl, ⟨c, cs, rfl, hc, hcs⟩, hblanks⟩
    obtain ⟨htake, hdrop⟩ : (cs ++ (blanks ++ '=' :: rest)).takeWhile isNameChar = cs ∧
        (cs ++ (blanks ++ '=' :: rest)).dropWhile isNameChar = blanks ++ '=' :: rest :=
      medial_append_stop (fun _ => isNameChar_iff) hcs hblanks
    refine ⟨blanks ++ '=' :: rest, ?_, blanks, hblanks, rfl⟩
    rw [List.cons_append, upperName?, if_pos (isNameStart_iff.mpr hc), htake, hdrop]

/-- What is behind a statement whose end is an end of a line: nothing, or the line feed. -/
def EndsLine (s : List Char) : Prop := s = [] ∨ ∃ behind, s = '\n' :: behind

/-- A text starts with the end of a statement: spaces and tabs, and a semicolon or the end of a
line. -/
def EndsStatement (s rest : List Char) : Prop :=
  ∃ gap, (∀ c ∈ gap, (c == ' ' || c == '\t') = true) ∧
    (s = gap ++ ';' :: rest ∨ EndsLine rest ∧ (s = gap ++ rest ∨ s = gap ++ '\r' :: rest))

theorem statementEnd?_eq_some_iff : statementEnd? s = some rest ↔ EndsStatement s rest := by
  constructor
  · intro h
    have hsplit := List.takeWhile_append_dropWhile (p := fun c => c == ' ' || c == '\t') (l := s)
    refine ⟨s.takeWhile fun c => c == ' ' || c == '\t', fun c => List.mem_takeWhile_imp, ?_⟩
    rw [statementEnd?] at h
    split at h
    · next heq =>
      cases h
      exact .inr ⟨.inl rfl, .inl (heq ▸ hsplit.symm)⟩
    · next heq =>
      cases h
      exact .inl (heq ▸ hsplit.symm)
    · next behind heq =>
      cases h
      exact .inr ⟨.inr ⟨behind, rfl⟩, .inl (heq ▸ hsplit.symm)⟩
    · next heq =>
      cases h
      exact .inr ⟨.inl rfl, .inr (heq ▸ hsplit.symm)⟩
    · next behind heq =>
      cases h
      exact .inr ⟨.inr ⟨behind, rfl⟩, .inr (heq ▸ hsplit.symm)⟩
    · cases h
  · rintro ⟨gap, hgap, rfl | ⟨rfl | ⟨behind, rfl⟩, rfl | rfl⟩⟩ <;>
      (rw [statementEnd?, List.dropWhile_append_of_pos hgap]; rfl)

/-- No word goes on at the end of a statement. -/
theorem EndsStatement.not_isWord (h : EndsStatement s rest) : s.head?.any Text.isWord = false := by
  obtain ⟨gap, hgap, heq⟩ := h
  cases gap with
  | nil => rcases heq with rfl | ⟨rfl | ⟨behind, rfl⟩, rfl | rfl⟩ <;> rfl
  | cons c gap =>
    have hhead : s.head? = some c := by
      rcases heq with rfl | ⟨-, rfl | rfl⟩ <;> rfl
    have hc := hgap c List.mem_cons_self
    rw [Bool.or_eq_true, beq_iff_eq, beq_iff_eq] at hc
    rw [hhead]
    rcases hc with rfl | rfl <;> rfl

/-- A text starts with the declaration of a constant that is given a literal of an outcome: `const`,
blanks, a name, an equals sign, the literal and the end of the statement, with blanks anywhere in
between. -/
structure Declares (outcome : Bool) (s : List Char) (d : Constant) (rest : List Char) : Prop where
  /-- The literal. -/
  literal : d.literal ∈ literals outcome
  /-- The whole declaration. -/
  eq : ∃ b₁ b₂ b₃ assigned close, b₁ ≠ [] ∧ Blanks b₁ ∧ Blanks b₃ ∧
    s = "const".toList ++ (b₁ ++ assigned) ∧
    AssignsWith assigned d.name b₂ (b₃ ++ (d.literal ++ close)) ∧ EndsStatement close rest

/-- The steps in which a declaration is read. -/
theorem declaration?_eq_some_iff_steps :
    declaration? outcome s = some (d, rest) ↔
      ∃ s₁, behind? "const".toList s = some s₁ ∧ s₁.head?.any Text.isBlank = true ∧
        ∃ s₃, (∃ s₂, upperName? (trimStart s₁) = some (d.name, s₂) ∧
            behind? ['='] (trimStart s₂) = some s₃) ∧
          ∃ s₄, oneOf? (literals outcome) (trimStart s₃) = some (d.literal, s₄) ∧
            s₄.head?.any Text.isWord = false ∧ statementEnd? s₄ = some rest := by
  obtain ⟨name, literal⟩ := d
  simp only [declaration?, Option.bind_eq_bind, Option.bind_none, Option.bind_eq_some_iff,
    Option.ite_none_left_eq_some, Option.pure_def, Option.some.injEq, Prod.mk.injEq, Constant.mk.injEq,
    Prod.exists]
  constructor
  · rintro ⟨s₁, hconst, hblank, name, s₂, hname, s₃, hequals, literal, s₄, hliteral, hword, s₅, hend,
      ⟨rfl, rfl⟩, rfl⟩
    exact ⟨s₁, hconst, by simpa using hblank, s₃, ⟨s₂, hname, hequals⟩, s₄, hliteral,
      by simpa using hword, hend⟩
  · rintro ⟨s₁, hconst, hblank, s₃, ⟨s₂, hname, hequals⟩, s₄, hliteral, hword, hend⟩
    exact ⟨s₁, hconst, by simpa using hblank, name, s₂, hname, s₃, hequals, literal, s₄, hliteral,
      by simpa using hword, rest, hend, ⟨rfl, rfl⟩, rfl⟩

/-- Something that does not start with a blank is behind some blanks, one of them at least. -/
theorem blanks_ne_nil_iff {t : List Char} (ht : StartsInk t) :
    s.head?.any Text.isBlank = true ∧ trimStart s = t ↔
      ∃ blanks, blanks ≠ [] ∧ Blanks blanks ∧ s = blanks ++ t := by
  rw [trimStart_eq_iff ht]
  constructor
  · rintro ⟨hhead, blanks, hblanks, rfl⟩
    refine ⟨blanks, ?_, hblanks, rfl⟩
    rintro rfl
    obtain ⟨c, behind, rfl, hc⟩ := ht
    exact Bool.false_ne_true (hc.symm.trans hhead)
  · rintro ⟨_ | ⟨b, blanks⟩, hne, hblanks, rfl⟩
    · exact absurd rfl hne
    · exact ⟨hblanks b List.mem_cons_self, _, hblanks, rfl⟩

/-- A literal behind blanks. No literal begins with another one. -/
theorem literal_iff {literal : List Char} :
    oneOf? (literals outcome) (trimStart s) = some (literal, rest) ↔
      literal ∈ literals outcome ∧ ∃ blanks, Blanks blanks ∧ s = blanks ++ (literal ++ rest) := by
  have hapart : (literals outcome).Pairwise fun v w => ¬ v <+: w ∧ ¬ w <+: v := by
    cases outcome <;> decide
  have hink : ∀ l ∈ literals outcome, l.head?.any (fun c => !Text.isBlank c) = true := by
    cases outcome <;> decide
  rw [oneOf?_eq_some_iff hapart]
  refine and_congr_right fun hmem => trimStart_eq_iff ?_
  obtain ⟨c, hc, hblank⟩ := Option.any_eq_true _ _ |>.mp (hink literal hmem)
  obtain ⟨cs, rfl⟩ := List.head?_eq_some_iff.mp hc
  exact ⟨c, cs ++ rest, rfl, (Bool.not_eq_true' _).mp hblank⟩

theorem declaration?_eq_some_iff :
    declaration? outcome s = some (d, rest) ↔ Declares outcome s d rest := by
  have hconst : ∀ behind, behind? "const".toList s = some behind ↔ s = "const".toList ++ behind :=
    fun _ => Text.behind?_eq_some
  simp only [declaration?_eq_some_iff_steps, hconst, assigns_iff, literal_iff,
    statementEnd?_eq_some_iff]
  constructor
  · rintro ⟨s₁, hs, hhead, s₃, ⟨b₂, hassigns⟩, close, ⟨hliteral, b₃, hb₃, rfl⟩, -, hend⟩
    have hink : StartsInk (trimStart s₁) := hassigns.eq ▸ hassigns.isName.startsInk.append _
    obtain ⟨b₁, hne, hb₁, heq⟩ := (blanks_ne_nil_iff hink).mp ⟨hhead, rfl⟩
    exact ⟨hliteral, b₁, b₂, b₃, trimStart s₁, close, hne, hb₁, hb₃, heq ▸ hs, hassigns, hend⟩
  · rintro ⟨hliteral, b₁, b₂, b₃, assigned, close, hne, hb₁, hb₃, rfl, hassigns, hend⟩
    have hink : StartsInk assigned := hassigns.eq ▸ hassigns.isName.startsInk.append _
    obtain ⟨hhead, htrim⟩ := (blanks_ne_nil_iff hink).mpr ⟨b₁, hne, hb₁, rfl⟩
    exact ⟨_, rfl, hhead, _, ⟨b₂, htrim.symm ▸ hassigns⟩, close, ⟨hliteral, b₃, hb₃, rfl⟩,
      hend.not_isWord, hend⟩

/-! ### From a declaration to a test -/

/-- What is read at the first place of a text where something can be read. -/
theorem firstSome?_eq_some_iff {α : Type} {read : List Char → Option α} {a : α} :
    firstSome? read s = some a ↔
      ∃ n ≤ s.length, read (s.drop n) = some a ∧ ∀ m < n, read (s.drop m) = none := by
  induction s with
  | nil => simp [firstSome?]
  | cons c s ih =>
    rw [firstSome?]
    cases hread : read (c :: s) with
    | some b =>
      constructor
      · exact fun h => ⟨0, Nat.zero_le _, hread.trans h, fun m hm => absurd hm (Nat.not_lt_zero m)⟩
      · rintro ⟨_ | n, -, h, hfirst⟩
        · exact hread.symm.trans h
        · have hnone := hread.symm.trans (hfirst 0 (Nat.succ_pos n))
          cases hnone
    | none =>
      simp only [ih]
      constructor
      · rintro ⟨n, hle, h, hfirst⟩
        refine ⟨n + 1, Nat.succ_le_succ hle, h, ?_⟩
        rintro (_ | m) hm
        · exact hread
        · exact hfirst m (Nat.lt_of_succ_lt_succ hm)
      · rintro ⟨_ | n, hle, h, hfirst⟩
        · have hnone := hread.symm.trans h
          cases hnone
        · exact ⟨n, Nat.le_of_succ_le_succ hle, h, fun m hm => hfirst (m + 1) (Nat.succ_lt_succ hm)⟩

/-- A text starts with a declaration of a constant, and behind the first test of the constant is the
rest. -/
def Spans (outcome : Bool) (s : List Char) (d : Constant) (rest : List Char) : Prop :=
  ∃ behind n, Declares outcome s d behind ∧ Tests d.name (behind.drop n) rest ∧
    ∀ m < n, ∀ rest', ¬ Tests d.name (behind.drop m) rest'

theorem Declares.startsInk (h : Declares outcome s d rest) : StartsInk d.name := by
  obtain ⟨b₁, b₂, b₃, assigned, close, -, -, -, -, hassigns, -⟩ := h.eq
  exact hassigns.isName.startsInk

/-- The first test in a text. -/
theorem firstTest_iff (hname : StartsInk name) :
    firstSome? (test? (behind? name)) s = some rest ↔
      ∃ n, Tests name (s.drop n) rest ∧ ∀ m < n, ∀ rest', ¬ Tests name (s.drop m) rest' := by
  rw [firstSome?_eq_some_iff]
  simp only [Option.eq_none_iff_forall_ne_some, ne_eq, test?_eq_some_iff hname]
  constructor
  · rintro ⟨n, -, h⟩
    exact ⟨n, h⟩
  · rintro ⟨n, h⟩
    refine ⟨n, ?_, h⟩
    obtain ⟨b₁, b₂, b₃, -, -, -, heq⟩ := h.1
    by_contra hlt
    rw [List.drop_eq_nil_of_le (Nat.le_of_not_le hlt)] at heq
    cases heq

theorem testedConstant?_eq_some_iff :
    testedConstant? outcome s = some (d, rest) ↔ Spans outcome s d rest := by
  simp only [testedConstant?, Option.bind_eq_bind, Option.bind_eq_some_iff, Option.pure_def,
    Option.some.injEq, Prod.mk.injEq, Prod.exists, declaration?_eq_some_iff]
  constructor
  · rintro ⟨d, behind, hdeclares, rest, hfirst, rfl, rfl⟩
    obtain ⟨n, hn⟩ := (firstTest_iff hdeclares.startsInk).mp hfirst
    exact ⟨behind, n, hdeclares, hn⟩
  · rintro ⟨behind, n, hdeclares, hn⟩
    exact ⟨d, behind, hdeclares, rest, (firstTest_iff hdeclares.startsInk).mpr ⟨n, hn⟩, rfl, rfl⟩

/-- A declared constant that is tested anywhere behind its declaration is tested there for a first
time. -/
theorem exists_spans_iff : (∃ rest, Spans outcome s d rest) ↔
    ∃ before tested rest, Declares outcome s d (before ++ tested) ∧ Tests d.name tested rest := by
  constructor
  · rintro ⟨rest, behind, n, hdeclares, htests, -⟩
    refine ⟨behind.take n, behind.drop n, rest, ?_, htests⟩
    rwa [List.take_append_drop]
  · rintro ⟨before, tested, rest, hdeclares, htests⟩
    have hsome : ∃ n rest, Tests d.name ((before ++ tested).drop n) rest :=
      ⟨before.length, rest, by rwa [List.drop_left]⟩
    classical
    obtain ⟨rest, hfirst⟩ := Nat.find_spec hsome
    exact ⟨rest, _, _, hdeclares, hfirst, fun m hm rest' h => Nat.find_min hsome hm ⟨rest', h⟩⟩

end FlagAudit.Detect
