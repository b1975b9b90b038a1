import FlagAudit.Proofs.Detect.DeadConditionals

/-!
# Where the reports of constants are

A rule of constants reports spans of a text, each from a declaration to the first test of the constant
behind it. Each span is what it is reported as, the first one starts where the first constant that is
tested at all is declared, and each of the others starts behind the one before it (`constant_findings`).
-/

namespace FlagAudit.Detect

open Text (Cursor Hit)

variable {content : List Char} {outcome : Bool} {i : Nat} {d : Constant}

/-! ### Declarations and their tests, written out -/

/-- At the start of a text a constant of an outcome is declared, and it is tested behind its declaration.
The declaration is `const`, blanks, a name, an equals sign and a literal, with blanks around the equals
sign; no word goes on behind the literal, and the statement ends there. -/
def DeclaredAndTested (outcome : Bool) (s : List Char) (d : Constant) : Prop :=
  ∃ b₁ b₂ b₃ close behind,
    s = "const".toList ++ (b₁ ++ (d.name ++ (b₂ ++ '=' :: (b₃ ++ (d.literal ++ close))))) ∧
    b₁ ≠ [] ∧ Blanks b₁ ∧ Blanks b₂ ∧ Blanks b₃ ∧ IsName d.name ∧ d.literal ∈ literals outcome ∧
    close.head?.any Text.isWord = false ∧ EndsStatement close behind ∧
    ∃ before tested rest, behind = before ++ tested ∧ Tests d.name tested rest

theorem declaredAndTested_iff :
    DeclaredAndTested outcome (content.drop i) d ↔ TestedAt content outcome i d := by
  constructor
  · rintro ⟨b₁, b₂, b₃, close, behind, hs, hne, hb₁, hb₂, hb₃, hname, hliteral, -, hend, before, tested,
      rest, rfl, htests⟩
    exact ⟨before, tested, rest,
      ⟨hliteral, b₁, b₂, b₃, _, close, hne, hb₁, hb₃, hs, ⟨rfl, hname, hb₂⟩, hend⟩, htests⟩
  · rintro ⟨before, tested, rest, hdeclares, htests⟩
    obtain ⟨b₁, b₂, b₃, assigned, close, hne, hb₁, hb₃, hs, hassigns, hend⟩ := hdeclares.eq
    rw [hassigns.eq] at hs
    exact ⟨b₁, b₂, b₃, close, _, hs, hne, hb₁, hassigns.blanks, hb₃, hassigns.isName, hdeclares.literal,
      hend.not_isWord, hend, before, tested, rest, rfl, htests⟩

/-! ### Spans -/

/-- A constant in a text, from its declaration to a test of it. -/
structure ConstantSpan where
  /-- The offset of the declaration. -/
  start : Nat
  /-- The constant. -/
  constant : Constant
  /-- The offset behind the test. -/
  stop : Nat

/-- What is reported for a span. -/
def ConstantSpan.finding (content : List Char) (file : String) (outcome : Bool) (span : ConstantSpan) :
    DeadConditional :=
  constantFinding content file outcome span.start span.constant

/-- A rule of constants finds spans: each is found at the declaration of a constant, as long as it is up
to the first test. -/
theorem exists_spans (content : List Char) (file : String) (outcome : Bool) :
    ∃ spanOf : Hit (List Char) → ConstantSpan,
      deadConditionalsOf content file (.constant outcome) =
        ((constantHits content outcome).map spanOf).map (ConstantSpan.finding content file outcome) ∧
      ∀ hit ∈ constantHits content outcome, (spanOf hit).start = hit.offset ∧
        (spanOf hit).stop = hit.offset + hit.length ∧
        SpanAt content outcome hit.offset (spanOf hit).constant (hit.offset + hit.length) := by
  have : Nonempty Constant := ⟨⟨[], []⟩⟩
  choose! constantOf hconstant using fun hit (h : hit ∈ constantHits content outcome) =>
    exists_spanAt_of_hit h
  refine ⟨fun hit => ⟨hit.offset, constantOf hit, hit.offset + hit.length⟩, ?_, ?_⟩
  · rw [List.map_map, deadConditionalsOf]
    refine List.map_congr_left fun hit hhit => ?_
    rw [(hconstant hit hhit).2]
    rfl
  · intro hit hhit
    exact ⟨rfl, rfl, (hconstant hit hhit).1⟩

theorem SpanAt.testedAt {stop : Nat} (h : SpanAt content outcome i d stop) :
    TestedAt content outcome i d := by
  obtain ⟨rest, hspans, -⟩ := h
  exact exists_spans_iff.mp ⟨rest, hspans⟩

/-- If constants are tested at all, one of them is declared before the others. -/
theorem exists_first_testedAt (h : ∃ i d, TestedAt content outcome i d) :
    ∃ i d, TestedAt content outcome i d ∧ ∀ j < i, ∀ e, ¬ TestedAt content outcome j e := by
  classical
  obtain ⟨d, hd⟩ := Nat.find_spec h
  exact ⟨Nat.find h, d, hd, fun j hj e he => Nat.find_min h hj ⟨e, he⟩⟩

/-- A constant that is declared and tested can be read at its declaration. -/
theorem TestedAt.exists_read (h : TestedAt content outcome i d) :
    ∃ c : Cursor, c.Within content ∧ c.offset = i ∧
      ∃ n, (Rule.constant outcome).reader false c = some (n, d.shown) := by
  obtain ⟨rest, hspans⟩ := exists_spans_iff.mpr h
  obtain ⟨c, hc, hoffset⟩ := Cursor.exists_within (Nat.le_of_lt h.lt_length)
  refine ⟨c, hc, hoffset, c.after.length - rest.length, ?_⟩
  rw [read_constant_iff]
  exact ⟨d, rest, by rwa [hc.after, hoffset], rfl, rfl⟩

/-- The first hit is at the first constant that is tested. -/
theorem head?_constantHits (h : TestedAt content outcome i d)
    (hfirst : ∀ j < i, ∀ e, ¬ TestedAt content outcome j e) :
    ∃ hit, (constantHits content outcome).head? = some hit ∧ hit.offset = i := by
  obtain ⟨c, hc, hoffset, n, hread⟩ := h.exists_read
  refine ⟨_, (solid_constant outcome content).head?_hits hc hread ?_, hoffset⟩
  intro c' hc' hlt
  rw [Option.eq_none_iff_forall_ne_some]
  rintro ⟨n, shown⟩ hsome
  obtain ⟨e, rest', hspans', -, -⟩ := read_constant_iff.mp hsome
  rw [hc'.after] at hspans'
  exact hfirst c'.offset (hoffset ▸ hlt) e (exists_spans_iff.mp ⟨rest', hspans'⟩)

/-! ### What is reported -/

/-- What a rule of constants reports are spans. At the start of each the text says that the constant is
declared, and then that it is tested; the span ends with the first such test. The next span starts behind
it. If a constant is declared and tested anywhere in the text, the first span starts at the first such
declaration. -/
theorem constant_findings (content : List Char) (file : String) (outcome : Bool) :
    ∃ spans : List ConstantSpan,
      deadConditionalsOf content file (.constant outcome) =
        spans.map (ConstantSpan.finding content file outcome) ∧
      (∀ span ∈ spans, DeclaredAndTested outcome (content.drop span.start) span.constant ∧
        SpanAt content outcome span.start span.constant span.stop) ∧
      spans.Pairwise (fun a b => a.stop ≤ b.start) ∧
      ((∃ i d, DeclaredAndTested outcome (content.drop i) d) →
        ∃ first, spans.head? = some first ∧
          ∀ j < first.start, ∀ e, ¬ DeclaredAndTested outcome (content.drop j) e) := by
  obtain ⟨spanOf, heq, hspanOf⟩ := exists_spans content file outcome
  refine ⟨_, heq, ?_, ?_, ?_⟩
  · intro span hspan
    obtain ⟨hit, hhit, rfl⟩ := List.mem_map.mp hspan
    obtain ⟨hstart, hstop, hat⟩ := hspanOf hit hhit
    rw [hstart, hstop]
    exact ⟨declaredAndTested_iff.mpr hat.testedAt, hat⟩
  · rw [List.pairwise_map]
    have hapart : (constantHits content outcome).Pairwise fun a b => a.offset + a.length ≤ b.offset :=
      (solid_constant outcome content).pairwise_hitsFrom (Cursor.within_start content)
    refine List.Pairwise.imp_of_mem ?_ hapart
    intro a b ha hb hle
    rw [(hspanOf a ha).2.1, (hspanOf b hb).1]
    exact hle
  · simp only [declaredAndTested_iff]
    intro hany
    obtain ⟨i, d, hd, hleast⟩ := exists_first_testedAt hany
    obtain ⟨hit, hhead, hoffset⟩ := head?_constantHits hd hleast
    have hhit : hit ∈ constantHits content outcome := List.mem_of_head? hhead
    refine ⟨spanOf hit, by rw [List.head?_map, hhead]; rfl, ?_⟩
    rw [(hspanOf hit hhit).1, hoffset]
    exact hleast

/-- A constant that is tested only before its declaration does not count, nor does one that is bound to
more than a literal. -/
example : deadConditionals "if (A) const A = 1;\nconst B = 1 + x;\nconst C = 1\r\nif (B) if(C)".toList "f" =
    [⟨"f", 3, 1, "const C = 1", true⟩] := by
  decide +kernel

end FlagAudit.Detect
