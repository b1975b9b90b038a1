import FlagAudit.Proofs.Detect.DeadConditionals

/-!
# Which tests of literals are reported

A test of a literal starts with `if`, and `if` does not occur in it again: there is an `i` in `undefined`,
but no `f` behind it. So two tests do not overlap, and the search from left to right passes over none of
them. What a test is about is determined by where it starts, so none is reported for both outcomes
(`literal_findings`).
-/

namespace FlagAudit.Detect

open Text (Cursor Hit Solid behind? oneOf? trimStart)

variable {content s text rest : List Char} {file : String} {outcome : Bool} {i : Nat}

/-! ### Tests of literals, as they are written -/

/-- A test of a literal of an outcome, and nothing behind it. -/
def IsLiteralTest (outcome : Bool) (text : List Char) : Prop :=
  ∃ literal ∈ testedLiterals outcome, Tests literal text []

/-- A test of a literal of an outcome starts at an offset. -/
def LiteralTestAt (content : List Char) (outcome : Bool) (i : Nat) (text : List Char) : Prop :=
  IsLiteralTest outcome text ∧ text <+: content.drop i

/-- What is reported for a test of a literal at an offset: the whole test. -/
def literalFinding (content : List Char) (file : String) (outcome : Bool)
    (site : Nat × List Char) : DeadConditional :=
  let p := Text.Position.ofOffset content site.1
  ⟨file, p.line, p.column, String.ofList site.2, outcome⟩

/-- A test is what is written up to its closing parenthesis. -/
theorem tests_iff_written {name : List Char} :
    Tests name s rest ↔ ∃ text, Tests name text [] ∧ s = text ++ rest := by
  constructor
  · rintro ⟨b₁, b₂, b₃, h₁, h₂, h₃, rfl⟩
    exact ⟨_, ⟨b₁, b₂, b₃, h₁, h₂, h₃, rfl⟩, by simp⟩
  · rintro ⟨text, ⟨b₁, b₂, b₃, h₁, h₂, h₃, rfl⟩, rfl⟩
    exact ⟨b₁, b₂, b₃, h₁, h₂, h₃, by simp⟩

/-- Literals do not start with a blank. -/
theorem startsInk_of_mem_testedLiterals {literal : List Char} (h : literal ∈ testedLiterals outcome) :
    StartsInk literal := by
  have hink : ∀ l ∈ testedLiterals outcome, l.head?.any (fun c => !Text.isBlank c) = true := by
    cases outcome <;> decide
  obtain ⟨c, hc, hblank⟩ := (Option.any_eq_true _ _).mp (hink literal h)
  obtain ⟨cs, rfl⟩ := List.head?_eq_some_iff.mp hc
  exact ⟨c, cs, rfl, (Bool.not_eq_true' _).mp hblank⟩

/-- A test of literals is read if one of them is tested. -/
theorem literalTest?_iff_exists :
    literalTest? outcome s = some rest ↔
      ∃ literal ∈ testedLiterals outcome, test? (behind? literal) s = some rest := by
  have hapart : (testedLiterals outcome).Pairwise fun v w => ¬ v <+: w ∧ ¬ w <+: v := by
    cases outcome <;> decide
  have hcondition : ∀ t u, (oneOf? (testedLiterals outcome) t).map (·.2) = some u ↔
      ∃ literal ∈ testedLiterals outcome, behind? literal t = some u := by
    intro t u
    simp only [Option.map_eq_some_iff, Prod.exists, oneOf?_eq_some_iff hapart, Text.behind?_eq_some]
    constructor
    · rintro ⟨literal, _, ⟨hmem, heq⟩, rfl⟩
      exact ⟨literal, hmem, heq⟩
    · rintro ⟨literal, hmem, heq⟩
      exact ⟨literal, u, ⟨hmem, heq⟩, rfl⟩
  simp only [literalTest?, test?, Option.bind_eq_bind, Option.bind_eq_some_iff, hcondition]
  constructor
  · rintro ⟨t, ht, u, hu, v, ⟨literal, hmem, hv⟩, hrest⟩
    exact ⟨literal, hmem, t, ht, u, hu, v, hv, hrest⟩
  · rintro ⟨literal, hmem, t, ht, u, hu, v, hv, hrest⟩
    exact ⟨t, ht, u, hu, v, ⟨literal, hmem, hv⟩, hrest⟩

/-- What is read is what is written. -/
theorem literalTest?_eq_some_iff :
    literalTest? outcome s = some rest ↔ ∃ text, IsLiteralTest outcome text ∧ s = text ++ rest := by
  rw [literalTest?_iff_exists]
  constructor
  · rintro ⟨literal, hmem, htest⟩
    have htests := (test?_eq_some_iff (startsInk_of_mem_testedLiterals hmem)).mp htest
    obtain ⟨text, htext, heq⟩ := tests_iff_written.mp htests
    exact ⟨text, ⟨literal, hmem, htext⟩, heq⟩
  · rintro ⟨text, ⟨literal, hmem, htext⟩, heq⟩
    refine ⟨literal, hmem, ?_⟩
    rw [test?_eq_some_iff (startsInk_of_mem_testedLiterals hmem), tests_iff_written]
    exact ⟨text, htext, heq⟩

/-- What the rule of literals reads is a test, as it is written. -/
theorem read?_literal_iff {shown : List Char} :
    (Rule.literal outcome).read? s = some (shown, rest) ↔
      IsLiteralTest outcome shown ∧ s = shown ++ rest := by
  simp only [Rule.read?, Option.bind_eq_bind, Option.bind_eq_some_iff, Option.pure_def,
    Option.some.injEq, Prod.mk.injEq, literalTest?_eq_some_iff]
  constructor
  · rintro ⟨_, ⟨text, htext, rfl⟩, rfl, rfl⟩
    simp [htext]
  · rintro ⟨htext, rfl⟩
    exact ⟨rest, ⟨shown, htext, rfl⟩, by simp, rfl⟩

theorem read_literal_iff {nonempty : Bool} {c : Cursor} {n : Nat} {shown : List Char} :
    (Rule.literal outcome).reader nonempty c = some (n, shown) ↔
      IsLiteralTest outcome shown ∧ shown <+: c.after ∧ n = shown.length := by
  simp only [Rule.reader_eq_some_iff, read?_literal_iff]
  constructor
  · rintro ⟨rest, ⟨htext, heq⟩, rfl⟩
    rw [heq]
    simp [htext]
  · rintro ⟨htext, ⟨rest, heq⟩, rfl⟩
    refine ⟨rest, ⟨htext, heq.symm⟩, ?_⟩
    rw [← heq]
    simp

/-! ### Tests do not overlap -/

/-- In a piece of a text, no `f` is behind an `i`, and no `i` is the last character. -/
def NoIfWithin (piece : List Char) : Prop :=
  ∀ k, piece[k]? = some 'i' → ∃ c, piece[k + 1]? = some c ∧ c ≠ 'f'

theorem noIfWithin_of_not_mem {piece : List Char} (h : 'i' ∉ piece) : NoIfWithin piece := by
  intro k hk
  exact absurd (List.mem_of_getElem? hk) h

theorem NoIfWithin.append {p q : List Char} (hp : NoIfWithin p) (hq : NoIfWithin q) :
    NoIfWithin (p ++ q) := by
  intro k hk
  by_cases hlt : k < p.length
  · rw [List.getElem?_append_left hlt] at hk
    obtain ⟨c, hc, hne⟩ := hp k hk
    have hnext := (List.getElem?_eq_some_iff.mp hc).1
    exact ⟨c, by rw [List.getElem?_append_left hnext, hc], hne⟩
  · rw [List.getElem?_append_right (Nat.le_of_not_lt hlt)] at hk
    obtain ⟨c, hc, hne⟩ := hq _ hk
    refine ⟨c, ?_, hne⟩
    rw [List.getElem?_append_right (by omega), ← hc]
    congr 1
    omega

theorem noIfWithin_of_blanks {blanks : List Char} (h : Blanks blanks) : NoIfWithin blanks := by
  refine noIfWithin_of_not_mem fun hmem => ?_
  have hblank := h 'i' hmem
  revert hblank
  decide

theorem noIfWithin_of_mem_testedLiterals {literal : List Char}
    (h : literal ∈ testedLiterals outcome) : NoIfWithin literal := by
  have hall : ∀ l ∈ testedLiterals outcome, ∀ k < l.length, l[k]? = some 'i' →
      l[k + 1]?.any (· != 'f') = true := by
    cases outcome <;> decide
  intro k hk
  have hlt := (List.getElem?_eq_some_iff.mp hk).1
  obtain ⟨c, hc, hne⟩ := (Option.any_eq_true _ _).mp (hall literal h k hlt hk)
  exact ⟨c, hc, by simpa using hne⟩

/-- A test of a literal starts with an `if`, and there is no other one in it. -/
theorem IsLiteralTest.eq_cons (h : IsLiteralTest outcome text) :
    ∃ behind, text = 'i' :: 'f' :: behind ∧ NoIfWithin ('f' :: behind) := by
  obtain ⟨literal, hliteral, b₁, b₂, b₃, h₁, h₂, h₃, rfl⟩ := h
  refine ⟨_, rfl, ?_⟩
  have hpieces : NoIfWithin (['f'] ++ (b₁ ++ (['('] ++ (b₂ ++ (literal ++ (b₃ ++ [')'])))))) :=
    (noIfWithin_of_not_mem (by decide)).append <| (noIfWithin_of_blanks h₁).append <|
      (noIfWithin_of_not_mem (by decide)).append <| (noIfWithin_of_blanks h₂).append <|
      (noIfWithin_of_mem_testedLiterals hliteral).append <| (noIfWithin_of_blanks h₃).append <|
      noIfWithin_of_not_mem (by decide)
  exact hpieces

/-- The next test starts behind a test. -/
theorem LiteralTestAt.apart {outcome' : Bool} {j : Nat} {text' : List Char}
    (h : LiteralTestAt content outcome i text) (h' : LiteralTestAt content outcome' j text')
    (hlt : i < j) : i + text.length ≤ j := by
  obtain ⟨htext, rest, heq⟩ := h
  obtain ⟨htext', rest', heq'⟩ := h'
  obtain ⟨behind, rfl, hbehind⟩ := htext.eq_cons
  obtain ⟨behind', rfl, -⟩ := htext'.eq_cons
  by_contra hinside
  -- The second `if` would be among the characters of the first test.
  obtain ⟨k, rfl⟩ := Nat.exists_eq_add_of_lt hlt
  have hk : k < ('f' :: behind).length := by
    rw [List.length_cons] at hinside
    omega
  have hchar : ∀ m, content[i + k + 1 + m]? = ('i' :: 'f' :: (behind' ++ rest'))[m]? := by
    intro m
    rw [← List.getElem?_drop, ← heq']
    rfl
  have hpiece : ∀ m, m < ('f' :: behind).length →
      content[i + 1 + m]? = ('f' :: behind)[m]? := by
    intro m hm
    rw [Nat.add_assoc, ← List.getElem?_drop, ← heq, Nat.add_comm, List.cons_append,
      List.getElem?_cons_succ, List.getElem?_append_left hm]
  obtain ⟨c, hc, hne⟩ := hbehind k (by
    rw [← hpiece k hk, Nat.add_right_comm]
    exact hchar 0)
  have hnext := (List.getElem?_eq_some_iff.mp hc).1
  have hf := hchar 1
  rw [← hpiece (k + 1) hnext, show i + 1 + (k + 1) = i + k + 1 + 1 by omega, hf] at hc
  exact hne (Option.some.inj hc).symm

/-! ### What is tested -/

/-- What is behind the opening parenthesis of a test. -/
def testedText? (s : List Char) : Option (List Char) := do
  let s ← behind? ['i', 'f'] s
  let s ← behind? ['('] (trimStart s)
  return trimStart s

theorem Tests.testedText? {name : List Char} (h : Tests name s rest) (hname : StartsInk name) :
    ∃ behind, testedText? s = some (name ++ behind) := by
  obtain ⟨b₁, b₂, b₃, h₁, h₂, -, rfl⟩ := h
  refine ⟨b₃ ++ ([')'] ++ rest), ?_⟩
  have hopen : StartsInk ['('] := ⟨_, _, rfl, by decide⟩
  simp only [Detect.testedText?, Option.bind_eq_bind, Option.bind_eq_some_iff, Option.pure_def,
    Option.some.injEq]
  refine ⟨_, Text.behind?_eq_some.mpr rfl, _, (behind?_trimStart_iff hopen).mpr ⟨b₁, h₁, rfl⟩, ?_⟩
  exact (trimStart_eq_iff (hname.append _)).mpr ⟨b₂, h₂, rfl⟩

/-- Where a test of a literal starts, it is determined for which outcome it is one. -/
theorem LiteralTestAt.outcome_eq {outcome' : Bool} {text' : List Char}
    (h : LiteralTestAt content outcome i text) (h' : LiteralTestAt content outcome' i text') :
    outcome = outcome' := by
  obtain ⟨⟨literal, hliteral, htests⟩, rest, heq⟩ := h
  obtain ⟨⟨literal', hliteral', htests'⟩, rest', heq'⟩ := h'
  obtain ⟨behind, hbehind⟩ := (tests_iff_written.mpr ⟨text, htests, heq.symm⟩).testedText?
    (startsInk_of_mem_testedLiterals hliteral)
  obtain ⟨behind', hbehind'⟩ := (tests_iff_written.mpr ⟨text', htests', heq'.symm⟩).testedText?
    (startsInk_of_mem_testedLiterals hliteral')
  have hsame : literal ++ behind = literal' ++ behind' :=
    Option.some.inj (hbehind.symm.trans hbehind')
  -- No literal of an outcome is the beginning of one of the other outcome.
  have hapart : ∀ l ∈ testedLiterals outcome, ∀ l' ∈ testedLiterals outcome',
      l <+: l' ∨ l' <+: l → outcome = outcome' := by
    cases outcome <;> cases outcome' <;> decide
  exact hapart literal hliteral literal' hliteral'
    (List.prefix_or_prefix_of_prefix ⟨behind, rfl⟩ ⟨behind', hsame.symm⟩)

theorem LiteralTestAt.lt_length (h : LiteralTestAt content outcome i text) : i < content.length := by
  obtain ⟨htext, hprefix⟩ := h
  obtain ⟨behind, rfl, -⟩ := htext.eq_cons
  have hle := hprefix.length_le
  simp only [List.length_cons, List.length_drop] at hle
  omega

/-! ### What the rules of literals find -/

theorem solid_literal (outcome : Bool) (content : List Char) :
    Solid (Rule.literal outcome).reader content where
  flag _ _ := rfl
  bound _ h := by
    obtain ⟨htext, hprefix, rfl⟩ := read_literal_iff.mp h
    obtain ⟨behind, rfl, -⟩ := htext.eq_cons
    exact ⟨Nat.succ_pos _, hprefix.length_le⟩

/-- At a cursor, a test of a literal is read that starts at its offset. -/
theorem read_literal_within_iff {nonempty : Bool} {c : Cursor} (hc : c.Within content) {n : Nat}
    {shown : List Char} :
    (Rule.literal outcome).reader nonempty c = some (n, shown) ↔
      LiteralTestAt content outcome c.offset shown ∧ n = shown.length := by
  rw [read_literal_iff, hc.after, LiteralTestAt, and_assoc]

/-- The tests of literals that are found in a text. -/
abbrev literalHits (content : List Char) (outcome : Bool) : List (Hit (List Char)) :=
  Text.hits (Rule.literal outcome).reader content

/-- All tests of literals are found. -/
theorem mem_literalHits_iff {hit : Hit (List Char)} :
    hit ∈ literalHits content outcome ↔
      LiteralTestAt content outcome hit.offset hit.value ∧ hit.length = hit.value.length := by
  have hapart : ∀ {c d : Cursor} {n m : Nat} {v w : List Char}, c.Within content → d.Within content →
      (Rule.literal outcome).reader false c = some (n, v) →
      (Rule.literal outcome).reader false d = some (m, w) → c.offset < d.offset →
        c.offset + n ≤ d.offset := by
    intro c d n m v w hc hd hread hread' hlt
    obtain ⟨htest, rfl⟩ := (read_literal_within_iff hc).mp hread
    obtain ⟨htest', -⟩ := (read_literal_within_iff hd).mp hread'
    exact htest.apart htest' hlt
  rw [(solid_literal outcome content).mem_hits_iff hapart]
  constructor
  · rintro ⟨c, hc, hoffset, hread⟩
    rw [read_literal_within_iff hc, hoffset] at hread
    exact hread
  · rintro ⟨htest, hlength⟩
    obtain ⟨c, hc, hoffset⟩ := Cursor.exists_within (Nat.le_of_lt htest.lt_length)
    exact ⟨c, hc, hoffset, (read_literal_within_iff hc).mpr ⟨hoffset ▸ htest, hlength⟩⟩

/-- Where the tests of literals of an outcome start, and how they are written. -/
def literalSites (content : List Char) (outcome : Bool) : List (Nat × List Char) :=
  (literalHits content outcome).map fun hit => (hit.offset, hit.value)

theorem mem_literalSites_iff :
    (i, text) ∈ literalSites content outcome ↔ LiteralTestAt content outcome i text := by
  simp only [literalSites, List.mem_map, mem_literalHits_iff, Prod.mk.injEq]
  constructor
  · rintro ⟨hit, ⟨htest, -⟩, rfl, rfl⟩
    exact htest
  · intro htest
    exact ⟨⟨i, text.length, text⟩, ⟨htest, rfl⟩, rfl, rfl⟩

theorem pairwise_literalSites (content : List Char) (outcome : Bool) :
    (literalSites content outcome).Pairwise fun a b => a.1 < b.1 := by
  rw [literalSites, List.pairwise_map]
  exact (solid_literal outcome content).pairwise_offsets

theorem deadConditionalsOf_literal (content : List Char) (file : String) (outcome : Bool) :
    deadConditionalsOf content file (.literal outcome) =
      (literalSites content outcome).map (literalFinding content file outcome) := by
  rw [literalSites, List.map_map]
  rfl

/-- No two tests of literals start at the same place. -/
theorem nodup_literalPositions (content : List Char) :
    ((literalSites content true ++ literalSites content false).map fun site =>
      Text.Position.ofOffset content site.1).Nodup := by
  have hsite : ∀ outcome, ∀ site ∈ literalSites content outcome,
      LiteralTestAt content outcome site.1 site.2 := fun _ _ => mem_literalSites_iff.mp
  have hbound : ∀ site ∈ literalSites content true ++ literalSites content false,
      site.1 ≤ content.length := by
    intro site hmem
    rcases List.mem_append.mp hmem with hmem | hmem
    · exact Nat.le_of_lt (hsite true site hmem).lt_length
    · exact Nat.le_of_lt (hsite false site hmem).lt_length
  have hoffsets : (literalSites content true ++ literalSites content false).Pairwise
      fun a b => a.1 ≠ b.1 := by
    refine List.pairwise_append.mpr ⟨?_, ?_, ?_⟩
    · exact (pairwise_literalSites content true).imp Nat.ne_of_lt
    · exact (pairwise_literalSites content false).imp Nat.ne_of_lt
    · intro a ha b hb heq
      have hb := hsite false b hb
      rw [← heq] at hb
      exact absurd ((hsite true a ha).outcome_eq hb) (by decide)
  rw [List.Nodup, List.pairwise_map]
  refine hoffsets.imp_of_mem fun ha hb hne heq => hne ?_
  exact Text.Position.ofOffset_injective (hbound _ ha) (hbound _ hb) heq

/-- The two rules of literals report exactly the tests of literals in a text: each offset where a test of
a literal starts, once and for one outcome, with the whole test as the condition. Those that always hold
come first, and the offsets of each rule increase. -/
theorem literal_findings (content : List Char) (file : String) :
    ∃ sites : Bool → List (Nat × List Char),
      (∀ outcome, deadConditionalsOf content file (.literal outcome) =
        (sites outcome).map (literalFinding content file outcome)) ∧
      (∀ outcome i text, (i, text) ∈ sites outcome ↔ LiteralTestAt content outcome i text) ∧
      (∀ outcome, (sites outcome).Pairwise fun a b => a.1 < b.1) ∧
      ((sites true ++ sites false).map fun site => Text.Position.ofOffset content site.1).Nodup ∧
      deadConditionals content file =
        (sites true).map (literalFinding content file true) ++
          ((sites false).map (literalFinding content file false) ++
            [Rule.constant true, Rule.constant false].flatMap (deadConditionalsOf content file)) := by
  refine ⟨literalSites content, deadConditionalsOf_literal content file, fun outcome i text => ?_,
    pairwise_literalSites content, nodup_literalPositions content, ?_⟩
  · exact mem_literalSites_iff
  · rw [← deadConditionalsOf_literal, ← deadConditionalsOf_literal, deadConditionals, rules,
      List.flatMap_cons, List.flatMap_cons]

/-- A test may be spread over lines, and the next one may follow without anything in between. -/
example : deadConditionals "if(0)if\n( undefined\t)".toList "f" =
    [⟨"f", 1, 1, "if(0)", false⟩, ⟨"f", 1, 6, "if\n( undefined\t)", false⟩] := by
  decide +kernel

end FlagAudit.Detect
