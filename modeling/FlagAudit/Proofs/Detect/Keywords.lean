import Mathlib.Data.List.Induction
import FlagAudit.Proofs.Detect.ConstantSpans
import FlagAudit.Proofs.Detect.LiteralTests

/-!
# Which words are taken for the keyword

A test is found by the two letters `if`, and nothing looks at what is before them. So they may just as well
be the last letters of a longer word, and what is found may be the call of a function. All tests of literals
are found, whichever word they start in, and constants are found in turns: the first one that is declared
and then tested by any word, and again behind that test (`mem_deadConditionalsOf_constant_iff`). Whether all
findings are due to the keyword depends on nothing but the words in these places (`byKeyword_iff`).
-/

namespace FlagAudit.Detect

open Text (Cursor Hit)

variable {content text : List Char} {file : String} {outcome : Bool} {i j k : Nat} {d : Constant}
  {found : DeadConditional}

/-! ### Words -/

/-- Whether a word of a program can have the character in it. -/
def isWordPart (c : Char) : Bool := Text.isWord c || c == '$'

/-- What starts at an offset is not the rest of a longer word. -/
def StartsWord (content : List Char) (i : Nat) : Prop :=
  i = 0 ∨ ∃ b, content[i - 1]? = some b ∧ isWordPart b = false

/-! ### Tests behind declarations -/

/-- A constant of an outcome is declared at an offset, and a test of it starts at another one behind the
declaration. -/
def TestedFrom (content : List Char) (outcome : Bool) (i : Nat) (d : Constant) (j : Nat) : Prop :=
  ∃ behind rest, Declares outcome (content.drop i) d behind ∧ content.length ≤ j + behind.length ∧
    Tests d.name (content.drop j) rest

theorem testedAt_iff_exists :
    TestedAt content outcome i d ↔ ∃ j, TestedFrom content outcome i d j := by
  constructor
  · rintro ⟨before, tested, rest, hdeclares, htests⟩
    have hsuffix : tested <:+ content :=
      (List.suffix_append before tested).trans (hdeclares.suffix.trans (List.drop_suffix i content))
    refine ⟨content.length - tested.length, before ++ tested, rest, hdeclares, ?_, ?_⟩
    · rw [List.length_append]
      omega
    · rwa [← List.suffix_iff_eq_drop.mp hsuffix]
  · rintro ⟨j, behind, rest, hdeclares, hle, htests⟩
    have hbehind : behind <:+ content := hdeclares.suffix.trans (List.drop_suffix i content)
    obtain ⟨before, rfl⟩ : content.drop j <:+ behind :=
      List.suffix_of_suffix_length_le (List.drop_suffix j content) hbehind
        (by rw [List.length_drop]; omega)
    exact ⟨before, content.drop j, rest, hdeclares, htests⟩

theorem TestedFrom.testedAt (h : TestedFrom content outcome i d j) : TestedAt content outcome i d :=
  testedAt_iff_exists.mpr ⟨j, h⟩

/-- Where a constant is declared and tested, it is determined which one. -/
theorem TestedAt.unique {d' : Constant} (h : TestedAt content outcome i d)
    (h' : TestedAt content outcome i d') : d = d' := by
  obtain ⟨rest, hspans⟩ := exists_spans_iff.mpr h
  obtain ⟨rest', hspans'⟩ := exists_spans_iff.mpr h'
  exact (hspans.unique hspans').1

/-! ### The turns of the search for constants -/

/-- From an offset on, this is the first place where a constant of an outcome is declared and then
tested. -/
structure FirstFrom (content : List Char) (outcome : Bool) (k i : Nat) (d : Constant) : Prop where
  /-- The declaration is not before the offset. -/
  le : k ≤ i
  /-- The constant is declared and tested. -/
  tested : TestedAt content outcome i d
  /-- No constant that is declared in between is tested. -/
  first : ∀ j, k ≤ j → j < i → ∀ e, ¬ TestedAt content outcome j e

/-- The search for constants of an outcome comes to an offset: to the first one, and to the end of the
first test of each constant that it finds. -/
inductive ComesTo (content : List Char) (outcome : Bool) : Nat → Prop where
  /-- It starts at the start of the text. -/
  | start : ComesTo content outcome 0
  /-- It goes on behind the first test of the first constant that is declared and tested. -/
  | behind {k i stop : Nat} {d : Constant} (h : ComesTo content outcome k)
      (hfirst : FirstFrom content outcome k i d) (hstop : SpanAt content outcome i d stop) :
      ComesTo content outcome stop

/-- The search for constants of an outcome finds a constant at an offset. -/
def FindsAt (content : List Char) (outcome : Bool) (i : Nat) (d : Constant) : Prop :=
  ∃ k, ComesTo content outcome k ∧ FirstFrom content outcome k i d

/-- A constant that is declared and tested is declared inside a hit. -/
theorem TestedAt.exists_hit_covering (h : TestedAt content outcome i d) :
    ∃ hit ∈ constantHits content outcome, hit.offset ≤ i ∧ i < hit.offset + hit.length := by
  obtain ⟨c, hc, hoffset, n, hread⟩ := h.exists_read
  obtain ⟨hit, hhit, hle, hlt, -⟩ := (solid_constant outcome content).exists_hit_covering hc hread
  exact ⟨hit, hhit, hoffset ▸ hle, hoffset ▸ hlt⟩

theorem testedAt_of_hit {hit : Hit (List Char)} (h : hit ∈ constantHits content outcome) :
    ∃ e, TestedAt content outcome hit.offset e := by
  obtain ⟨e, hspan, -⟩ := exists_spanAt_of_hit h
  exact ⟨e, hspan.testedAt⟩

/-- Behind a hit, and at the start, the first constant that is declared and tested is a hit. -/
theorem FirstFrom.exists_hit (h : FirstFrom content outcome k i d)
    (hk : k = 0 ∨ ∃ hit ∈ constantHits content outcome, hit.offset + hit.length = k) :
    ∃ hit ∈ constantHits content outcome, hit.offset = i := by
  obtain ⟨hit, hhit, hle, hlt⟩ := h.tested.exists_hit_covering
  refine ⟨hit, hhit, Nat.le_antisymm hle (Nat.le_of_not_lt fun hbefore => ?_)⟩
  obtain ⟨e, he⟩ := testedAt_of_hit hhit
  -- The hit is not between the two offsets, so it starts before the first one, and ends there.
  have hoffset : hit.offset < k := Nat.lt_of_not_le fun hfrom => h.first _ hfrom hbefore e he
  rcases hk with rfl | ⟨last, hlast, rfl⟩
  · exact Nat.not_lt_zero _ hoffset
  · have hsolid := solid_constant outcome content
    have hfrom := h.le
    rcases Nat.lt_trichotomy hit.offset last.offset with hlt' | heq | hgt
    · have happart := hsolid.hits_apart hhit hlast hlt'
      omega
    · obtain ⟨e', hspan, -⟩ := exists_spanAt_of_hit hhit
      have hstop := hspan.eq_of_hit hlast heq.symm
      omega
    · have happart := hsolid.hits_apart hlast hhit hgt
      omega

/-- Wherever the search comes to, a hit ends there, or it is the start of the text. -/
theorem ComesTo.eq_zero_or_exists_hit (h : ComesTo content outcome k) :
    k = 0 ∨ ∃ hit ∈ constantHits content outcome, hit.offset + hit.length = k := by
  induction h with
  | start => exact .inl rfl
  | behind h hfirst hstop ih =>
    obtain ⟨hit, hhit, hoffset⟩ := hfirst.exists_hit ih
    exact .inr ⟨hit, hhit, (hstop.eq_of_hit hhit hoffset).symm⟩

/-- Only the hits before a hit reach behind a declaration before it. -/
theorem exists_hit_before {before after : List (Hit (List Char))} {hit : Hit (List Char)}
    (h : constantHits content outcome = before ++ hit :: after) (hd : TestedAt content outcome i d)
    (hlt : i < hit.offset) : ∃ x ∈ before, i < x.offset + x.length := by
  obtain ⟨x, hx, hle, hinside⟩ := hd.exists_hit_covering
  have hsorted : (constantHits content outcome).Pairwise fun a b => a.offset < b.offset :=
    (solid_constant outcome content).pairwise_offsets
  rw [h] at hx hsorted
  rcases List.mem_append.mp hx with hx | hx
  · exact ⟨x, hx, hinside⟩
  · rcases List.mem_cons.mp hx with rfl | hx
    · omega
    · have hbehind := (List.pairwise_cons.mp (List.pairwise_append.mp hsorted).2.1).1 x hx
      omega

/-- The search finds a constant at each hit. By induction on the hits before it: the search comes to the
end of the last one of them. -/
theorem findsAt_of_hits {before after : List (Hit (List Char))} {hit : Hit (List Char)}
    (h : constantHits content outcome = before ++ hit :: after) :
    ∃ d, FindsAt content outcome hit.offset d := by
  obtain ⟨d, hd⟩ : ∃ d, TestedAt content outcome hit.offset d :=
    testedAt_of_hit (h ▸ List.mem_append_right before List.mem_cons_self)
  refine ⟨d, ?_⟩
  induction before using List.reverseRecOn generalizing hit after d with
  | nil =>
    refine ⟨0, .start, Nat.zero_le _, hd, fun j _ hlt e he => ?_⟩
    obtain ⟨x, hx, -⟩ := exists_hit_before h he hlt
    cases hx
  | append_singleton before last ih =>
    have hlast : constantHits content outcome = before ++ last :: (hit :: after) := by
      rw [h, List.append_assoc, List.singleton_append]
    have hmem : last ∈ constantHits content outcome :=
      hlast ▸ List.mem_append_right before List.mem_cons_self
    obtain ⟨e, hspan, -⟩ := exists_spanAt_of_hit hmem
    obtain ⟨k, hk, hfirst⟩ := ih hlast e hspan.testedAt
    have hapart : (constantHits content outcome).Pairwise fun a b => a.offset + a.length ≤ b.offset :=
      (solid_constant outcome content).pairwise_hitsFrom (Cursor.within_start content)
    rw [hlast] at hapart
    obtain ⟨-, hbehind, hbefore⟩ := List.pairwise_append.mp hapart
    have hle := (List.pairwise_cons.mp hbehind).1 hit List.mem_cons_self
    refine ⟨_, hk.behind hfirst hspan, hle, hd, fun j hfrom hlt e' he' => ?_⟩
    -- What reaches behind the declaration would be the last hit or one before it.
    obtain ⟨x, hx, hinside⟩ := exists_hit_before h he' hlt
    rcases List.mem_append.mp hx with hx | hx
    · have hstop := hbefore x hx last List.mem_cons_self
      omega
    · obtain rfl := List.mem_singleton.mp hx
      omega

/-- A rule of constants reports what the search finds. -/
theorem mem_deadConditionalsOf_constant_iff :
    found ∈ deadConditionalsOf content file (.constant outcome) ↔
      ∃ i d, FindsAt content outcome i d ∧ found = constantFinding content file outcome i d := by
  rw [deadConditionalsOf, List.mem_map]
  constructor
  · rintro ⟨hit, hhit, rfl⟩
    obtain ⟨before, after, hsplit⟩ := List.append_of_mem hhit
    obtain ⟨d, k, hk, hfirst⟩ := findsAt_of_hits hsplit
    obtain ⟨e, hspan, hvalue⟩ := exists_spanAt_of_hit hhit
    obtain rfl := hfirst.tested.unique hspan.testedAt
    refine ⟨hit.offset, d, ⟨k, hk, hfirst⟩, ?_⟩
    rw [hvalue]
    rfl
  · rintro ⟨i, d, ⟨k, hk, hfirst⟩, rfl⟩
    obtain ⟨hit, hhit, rfl⟩ := hfirst.exists_hit hk.eq_zero_or_exists_hit
    obtain ⟨e, hspan, hvalue⟩ := exists_spanAt_of_hit hhit
    obtain rfl := hfirst.tested.unique hspan.testedAt
    refine ⟨hit, hhit, ?_⟩
    rw [hvalue]
    rfl

/-! ### Findings that are due to the keyword -/

/-- All findings in a text are due to the keyword. -/
structure ByKeyword (content : List Char) (file : String) : Prop where
  /-- What a rule of literals reports is a test of a literal that starts a word. -/
  literal : ∀ outcome, ∀ found ∈ deadConditionalsOf content file (.literal outcome), ∃ i text,
    found = literalFinding content file outcome (i, text) ∧ LiteralTestAt content outcome i text ∧
      StartsWord content i
  /-- What a rule of constants reports is a constant with a test behind its declaration that starts a
  word. -/
  constant : ∀ outcome, ∀ found ∈ deadConditionalsOf content file (.constant outcome), ∃ i d j,
    found = constantFinding content file outcome i d ∧ TestedFrom content outcome i d j ∧
      StartsWord content j

/-- The report of a test of a literal tells where the test starts. -/
theorem literalFinding_injective {text' : List Char} (hi : i ≤ content.length)
    (hj : j ≤ content.length) (heq : literalFinding content file outcome (i, text) =
      literalFinding content file outcome (j, text')) : i = j := by
  obtain ⟨-, hline, hcolumn, -, -⟩ := DeadConditional.mk.inj heq
  exact Text.Position.ofOffset_injective hi hj (Text.Position.eq_of_reported hline hcolumn)

/-- The report of a constant tells where it is declared. -/
theorem constantFinding_injective {d' : Constant} (h : TestedAt content outcome i d)
    (h' : TestedAt content outcome j d')
    (heq : constantFinding content file outcome i d = constantFinding content file outcome j d') :
    i = j ∧ d = d' := by
  obtain ⟨-, hline, hcolumn, -, -⟩ := DeadConditional.mk.inj heq
  obtain rfl := Text.Position.ofOffset_injective (Nat.le_of_lt h.lt_length)
    (Nat.le_of_lt h'.lt_length) (Text.Position.eq_of_reported hline hcolumn)
  exact ⟨rfl, h.unique h'⟩

theorem mem_deadConditionalsOf_literal_iff :
    found ∈ deadConditionalsOf content file (.literal outcome) ↔
      ∃ i text, LiteralTestAt content outcome i text ∧
        found = literalFinding content file outcome (i, text) := by
  rw [deadConditionalsOf_literal, List.mem_map]
  constructor
  · rintro ⟨⟨i, text⟩, hsite, rfl⟩
    exact ⟨i, text, mem_literalSites_iff.mp hsite, rfl⟩
  · rintro ⟨i, text, htest, rfl⟩
    exact ⟨(i, text), mem_literalSites_iff.mpr htest, rfl⟩

/-- Each finding is due to the letters `if`: a test of a literal, or a declaration with a test of the
constant behind it, to which the search comes. All findings are due to the keyword exactly if each test of a
literal starts a word, and if one test at least of each constant does to which the search comes. -/
theorem byKeyword_iff (content : List Char) (file : String) :
    (∀ outcome found, found ∈ deadConditionalsOf content file (.literal outcome) ↔
      ∃ i text, LiteralTestAt content outcome i text ∧
        found = literalFinding content file outcome (i, text)) ∧
    (∀ outcome found, found ∈ deadConditionalsOf content file (.constant outcome) ↔
      ∃ i d, FindsAt content outcome i d ∧ found = constantFinding content file outcome i d) ∧
    (∀ outcome i d, FindsAt content outcome i d → ∃ j, TestedFrom content outcome i d j) ∧
    (ByKeyword content file ↔
      (∀ outcome i text, LiteralTestAt content outcome i text → StartsWord content i) ∧
      ∀ outcome i d, FindsAt content outcome i d →
        ∃ j, TestedFrom content outcome i d j ∧ StartsWord content j) := by
  refine ⟨fun _ _ => mem_deadConditionalsOf_literal_iff,
    fun _ _ => mem_deadConditionalsOf_constant_iff,
    fun _ _ _ ⟨_, _, hfirst⟩ => testedAt_iff_exists.mp hfirst.tested, ?_⟩
  constructor
  · rintro ⟨hliteral, hconstant⟩
    refine ⟨fun outcome i text htest => ?_, fun outcome i d hfinds => ?_⟩
    · obtain ⟨j, text', heq, htest', hword⟩ :=
        hliteral outcome _ (mem_deadConditionalsOf_literal_iff.mpr ⟨i, text, htest, rfl⟩)
      obtain rfl := literalFinding_injective (Nat.le_of_lt htest.lt_length)
        (Nat.le_of_lt htest'.lt_length) heq
      exact hword
    · obtain ⟨i', d', j, heq, htested, hword⟩ :=
        hconstant outcome _ (mem_deadConditionalsOf_constant_iff.mpr ⟨i, d, hfinds, rfl⟩)
      obtain ⟨k, -, hfirst⟩ := hfinds
      obtain ⟨rfl, rfl⟩ := constantFinding_injective hfirst.tested htested.testedAt heq
      exact ⟨j, htested, hword⟩
  · rintro ⟨hliteral, hconstant⟩
    refine ⟨fun outcome found hfound => ?_, fun outcome found hfound => ?_⟩
    · obtain ⟨i, text, htest, rfl⟩ := mem_deadConditionalsOf_literal_iff.mp hfound
      exact ⟨i, text, rfl, htest, hliteral outcome i text htest⟩
    · obtain ⟨i, d, hfinds, rfl⟩ := mem_deadConditionalsOf_constant_iff.mp hfound
      obtain ⟨j, htested, hword⟩ := hconstant outcome i d hfinds
      exact ⟨i, d, j, rfl, htested, hword⟩

/-- A call of a function whose name ends in `if` is reported. -/
theorem not_always_byKeyword : ¬ ∀ content file, ByKeyword content file := by
  intro h
  have hfound : literalFinding "notif(true)".toList "<string>" true (3, "if(true)".toList) ∈
      deadConditionalsOf "notif(true)".toList "<string>" (.literal true) := by decide +kernel
  obtain ⟨i, text, heq, htest, hword⟩ := (h "notif(true)".toList "<string>").literal true _ hfound
  obtain rfl := literalFinding_injective (by decide) (Nat.le_of_lt htest.lt_length) heq
  rcases hword with hzero | ⟨b, hb, hpart⟩
  · cases hzero
  · cases hb
    revert hpart
    decide

end FlagAudit.Detect
