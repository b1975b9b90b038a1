import FlagAudit.Proofs.Detect.Constants
import FlagAudit.Proofs.Text.Overlap
import FlagAudit.Proofs.Text.Position

/-!
# Which tested constants are reported

What is found of a constant reaches from its declaration to its first test, and the search goes on
behind that test. So a constant of the same outcome that is declared in between is passed over, however
often it is tested: a tested constant is reported if it is not declared inside what has been found of
another one, and only then.
-/

namespace FlagAudit.Detect

open Text (Cursor Hit Reader Solid)

variable {content s rest : List Char} {file : String} {outcome : Bool} {i : Nat} {d : Constant}

/-! ### Constants in a text -/

/-- A constant of an outcome is declared at an offset and tested anywhere behind its declaration. -/
def TestedAt (content : List Char) (outcome : Bool) (i : Nat) (d : Constant) : Prop :=
  ∃ before tested rest, Declares outcome (content.drop i) d (before ++ tested) ∧
    Tests d.name tested rest

/-- A constant of an outcome is declared at an offset, and its first test behind the declaration ends
at another one. -/
def SpanAt (content : List Char) (outcome : Bool) (i : Nat) (d : Constant) (stop : Nat) : Prop :=
  ∃ rest, Spans outcome (content.drop i) d rest ∧ stop + rest.length = content.length

/-- How a constant is shown. -/
def Constant.shown (d : Constant) : List Char :=
  "const ".toList ++ d.name ++ " = ".toList ++ d.literal

/-- What is reported for a constant of an outcome that is declared at an offset. -/
def constantFinding (content : List Char) (file : String) (outcome : Bool) (i : Nat) (d : Constant) :
    DeadConditional :=
  let p := Text.Position.ofOffset content i
  ⟨file, p.line, p.column, String.ofList d.shown, outcome⟩

/-- What is behind a statement ends the text. -/
theorem EndsStatement.suffix (h : EndsStatement s rest) : rest <:+ s := by
  obtain ⟨gap, -, rfl | ⟨-, rfl | rfl⟩⟩ := h
  · exact (List.suffix_cons ';' rest).trans (List.suffix_append gap _)
  · exact List.suffix_append gap rest
  · exact (List.suffix_cons '\r' rest).trans (List.suffix_append gap _)

theorem Declares.length_lt (h : Declares outcome s d rest) : rest.length < s.length := by
  obtain ⟨b₁, b₂, b₃, assigned, close, hne, -, -, rfl, hassigns, hend⟩ := h.eq
  have hpos := List.length_pos_iff.mpr hne
  have hle := hend.suffix.length_le
  rw [hassigns.eq]
  simp only [List.length_append, List.length_cons]
  omega

theorem Tests.length_lt {name : List Char} (h : Tests name s rest) : rest.length < s.length := by
  obtain ⟨b₁, b₂, b₃, -, -, -, rfl⟩ := h
  simp only [List.length_append, List.length_cons, List.length_nil]
  omega

theorem Declares.suffix (h : Declares outcome s d rest) : rest <:+ s := by
  obtain ⟨b₁, b₂, b₃, assigned, close, -, -, -, rfl, hassigns, hend⟩ := h.eq
  rw [hassigns.eq]
  obtain ⟨gap, rfl⟩ := hend.suffix
  exact ⟨"const".toList ++ (b₁ ++ (d.name ++ (b₂ ++ '=' :: (b₃ ++ (d.literal ++ gap))))), by simp⟩

theorem Tests.suffix {name : List Char} (h : Tests name s rest) : rest <:+ s := by
  obtain ⟨b₁, b₂, b₃, -, -, -, rfl⟩ := h
  exact ⟨['i', 'f'] ++ (b₁ ++ (['('] ++ (b₂ ++ (name ++ (b₃ ++ [')']))))), by simp⟩

/-- What is behind the first test of a constant ends the text. -/
theorem Spans.suffix (h : Spans outcome s d rest) : rest <:+ s := by
  obtain ⟨behind, n, hdeclares, htests, -⟩ := h
  exact htests.suffix.trans ((List.drop_suffix n behind).trans hdeclares.suffix)

theorem Spans.length_lt (h : Spans outcome s d rest) : rest.length < s.length := by
  obtain ⟨behind, n, hdeclares, htests, -⟩ := h
  have hdeclared := hdeclares.length_lt
  have htested := htests.length_lt
  rw [List.length_drop] at htested
  omega

/-- Where a constant is declared, it is determined which one, and where its first test ends. -/
theorem Spans.unique {d' : Constant} {rest' : List Char} (h : Spans outcome s d rest)
    (h' : Spans outcome s d' rest') : d = d' ∧ rest = rest' := by
  have heq := (testedConstant?_eq_some_iff.mpr h).symm.trans (testedConstant?_eq_some_iff.mpr h')
  exact Prod.mk.inj (Option.some.inj heq)

theorem TestedAt.lt_length (h : TestedAt content outcome i d) : i < content.length := by
  obtain ⟨before, tested, rest, hdeclares, -⟩ := h
  have hlt := hdeclares.length_lt
  rw [List.length_drop] at hlt
  omega

/-! ### What the rule of constants finds -/

/-- A rule reads at a cursor what it reads in the text behind it. -/
theorem Rule.reader_eq_some_iff {rule : Rule} {nonempty : Bool} {c : Cursor} {n : Nat}
    {shown : List Char} : rule.reader nonempty c = some (n, shown) ↔
      ∃ rest, rule.read? c.after = some (shown, rest) ∧ n = c.after.length - rest.length := by
  simp only [Rule.reader, Option.bind_eq_bind, Option.bind_eq_some_iff, Option.pure_def,
    Option.some.injEq, Prod.exists, Prod.mk.injEq]
  constructor
  · rintro ⟨_, rest, h, rfl, rfl⟩
    exact ⟨rest, h, rfl⟩
  · rintro ⟨rest, h, rfl⟩
    exact ⟨shown, rest, h, rfl, rfl⟩

theorem read?_constant_iff {shown : List Char} :
    (Rule.constant outcome).read? s = some (shown, rest) ↔
      ∃ d, Spans outcome s d rest ∧ shown = d.shown := by
  simp only [Rule.read?, Option.bind_eq_bind, Option.bind_eq_some_iff, Option.pure_def,
    Option.some.injEq, Prod.exists, Prod.mk.injEq, testedConstant?_eq_some_iff]
  constructor
  · rintro ⟨d, rest, hspans, rfl, rfl⟩
    exact ⟨d, hspans, rfl⟩
  · rintro ⟨d, hspans, rfl⟩
    exact ⟨d, rest, hspans, rfl, rfl⟩

theorem read_constant_iff {nonempty : Bool} {c : Cursor} {n : Nat} {shown : List Char} :
    (Rule.constant outcome).reader nonempty c = some (n, shown) ↔
      ∃ d rest, Spans outcome c.after d rest ∧ n = c.after.length - rest.length ∧ shown = d.shown := by
  simp only [Rule.reader_eq_some_iff, read?_constant_iff]
  constructor
  · rintro ⟨rest, ⟨d, hspans, hshown⟩, hlength⟩
    exact ⟨d, rest, hspans, hlength, hshown⟩
  · rintro ⟨d, rest, hspans, hlength, hshown⟩
    exact ⟨rest, ⟨d, hspans, hshown⟩, hlength⟩

/-- What is found of a constant is not empty. -/
theorem solid_constant (outcome : Bool) (content : List Char) :
    Solid (Rule.constant outcome).reader content where
  flag _ _ := rfl
  bound _ h := by
    obtain ⟨d, rest, hspans, rfl, -⟩ := read_constant_iff.mp h
    have hlt := hspans.length_lt
    omega

/-- The constants of an outcome that are found in a text. -/
abbrev constantHits (content : List Char) (outcome : Bool) : List (Hit (List Char)) :=
  Text.hits (Rule.constant outcome).reader content

/-- What is found is a constant, from its declaration to its first test. -/
theorem exists_spanAt_of_hit {hit : Hit (List Char)} (h : hit ∈ constantHits content outcome) :
    ∃ d, SpanAt content outcome hit.offset d (hit.offset + hit.length) ∧ hit.value = d.shown := by
  obtain ⟨nonempty, c, hc, hoffset, hread⟩ :=
    Text.exists_read_of_mem_hitsFrom (Cursor.within_start content) h
  obtain ⟨d, rest, hspans, hlength, hvalue⟩ := read_constant_iff.mp hread
  have hlt := hspans.length_lt
  rw [hc.after, hoffset] at hspans hlength hlt
  rw [List.length_drop] at hlength hlt
  exact ⟨d, ⟨rest, hspans, by omega⟩, hvalue⟩

/-- What is found of a constant that is declared at an offset reaches to its first test. -/
theorem SpanAt.eq_of_hit {stop : Nat} (h : SpanAt content outcome i d stop) {hit : Hit (List Char)}
    (hhit : hit ∈ constantHits content outcome) (hoffset : hit.offset = i) :
    stop = hit.offset + hit.length := by
  obtain ⟨d', ⟨rest', hspans', hstop'⟩, -⟩ := exists_spanAt_of_hit hhit
  obtain ⟨rest, hspans, hstop⟩ := h
  rw [hoffset] at hspans'
  obtain ⟨rfl, rfl⟩ := hspans.unique hspans'
  omega

theorem SpanAt.lt_length {stop : Nat} (h : SpanAt content outcome i d stop) : i < content.length := by
  obtain ⟨rest, hspans, -⟩ := h
  exact TestedAt.lt_length (exists_spans_iff.mp ⟨rest, hspans⟩)

/-- A test of a literal is shown with the `if` that it starts with. -/
theorem shown_of_literal {shown : List Char} (h : (Rule.literal outcome).read? s = some (shown, rest)) :
    ∃ n behind, shown = ('i' :: behind).take n := by
  simp only [Rule.read?, literalTest?, test?, Option.bind_eq_bind, Option.bind_eq_some_iff,
    Option.pure_def, Option.some.injEq, Prod.mk.injEq, Text.behind?_eq_some] at h
  obtain ⟨-, ⟨behind, rfl, -⟩, rfl, -⟩ := h
  exact ⟨_, _, rfl⟩

/-- A constant is reported exactly if it is found. -/
theorem constantFinding_mem_iff (file : String) (hi : i ≤ content.length) :
    constantFinding content file outcome i d ∈ deadConditionals content file ↔
      ∃ hit ∈ constantHits content outcome, hit.offset = i ∧ hit.value = d.shown := by
  simp only [deadConditionals, deadConditionalsOf, List.mem_flatMap, List.mem_map]
  constructor
  · rintro ⟨rule, -, hit, hhit, heq⟩
    obtain ⟨-, hline, hcolumn, hshown, houtcome⟩ := DeadConditional.mk.inj heq
    have hvalue := String.ofList_injective hshown
    obtain ⟨nonempty, c, hc, hoffset, hread⟩ :=
      Text.exists_read_of_mem_hitsFrom (Cursor.within_start content) hhit
    have hle := hc.offset_le
    cases rule with
    | literal outcome' =>
      -- A literal is shown with an `i` at its start, a constant with a `c`.
      obtain ⟨rest, hread, -⟩ := Rule.reader_eq_some_iff.mp hread
      obtain ⟨n, behind, hliteral⟩ := shown_of_literal hread
      unfold Constant.shown at hvalue
      rw [hliteral] at hvalue
      cases n <;> simp at hvalue
    | constant outcome' =>
      obtain rfl : outcome' = outcome := houtcome
      have hposition := Text.Position.eq_of_reported hline hcolumn
      exact ⟨hit, hhit, Text.Position.ofOffset_injective (hoffset ▸ hle) hi hposition, hvalue⟩
  · rintro ⟨hit, hhit, rfl, hvalue⟩
    refine ⟨.constant outcome, by cases outcome <;> decide, hit, hhit, ?_⟩
    rw [hvalue]
    rfl

/-! ### What is reported -/

/-- A constant that is tested behind its declaration is reported exactly if its declaration does not
start inside the span of another constant of the same outcome that is reported. -/
theorem constantFinding_mem_deadConditionals_iff (h : TestedAt content outcome i d) :
    constantFinding content file outcome i d ∈ deadConditionals content file ↔
      ∀ j e stop, SpanAt content outcome j e stop →
        constantFinding content file outcome j e ∈ deadConditionals content file →
        j < i → stop ≤ i := by
  have hi := h.lt_length
  obtain ⟨rest, hspans⟩ := exists_spans_iff.mpr h
  have hsolid := solid_constant outcome content
  rw [constantFinding_mem_iff file (Nat.le_of_lt hi)]
  constructor
  · rintro ⟨hit, hhit, rfl, -⟩ j e stop hother hfinding hlt
    obtain ⟨hit', hhit', rfl, -⟩ :=
      (constantFinding_mem_iff file (Nat.le_of_lt hother.lt_length)).mp hfinding
    rw [hother.eq_of_hit hhit' rfl]
    exact hsolid.hits_apart hhit' hhit hlt
  · intro houtside
    have hc := (Cursor.within_start content).advance i
    have hoffset : ((Cursor.start content).advance i).offset = i := by
      rw [Cursor.offset_advance (by exact Nat.le_of_lt hi)]
      exact Nat.zero_add i
    have hread : (Rule.constant outcome).reader false ((Cursor.start content).advance i) =
        some (_, d.shown) :=
      read_constant_iff.mpr ⟨d, rest, by rwa [hc.after, hoffset], rfl, rfl⟩
    obtain ⟨hit, hhit, hle, hlt, heq⟩ := hsolid.exists_hit_covering hc hread
    rw [hoffset] at hle hlt heq
    rcases Nat.lt_or_eq_of_le hle with hbefore | hhere
    · -- The declaration would be inside another hit.
      obtain ⟨e, hother, hvalue⟩ := exists_spanAt_of_hit hhit
      have hfinding := (constantFinding_mem_iff file (Nat.le_of_lt hother.lt_length)).mpr
        ⟨hit, hhit, rfl, hvalue⟩
      exact absurd (houtside _ _ _ hother hfinding hbefore) (Nat.not_le_of_lt hlt)
    · exact ⟨hit, hhit, hhere, by rw [heq hhere]⟩

/-- Two constants that are declared before either of them is tested. -/
def interleaved : List Char :=
  "const A = true;\nconst B = true;\nif (A) \x7b\x7d\nif (B) \x7b\x7d\n".toList

theorem testedAt_interleaved : TestedAt interleaved true 16 ⟨['B'], "true".toList⟩ := by
  have hread : testedConstant? true (interleaved.drop 16) =
      some (⟨['B'], "true".toList⟩, " \x7b\x7d\n".toList) := by decide +kernel
  exact exists_spans_iff.mp ⟨_, testedConstant?_eq_some_iff.mp hread⟩

/-- The first one is reported, and its test is behind the declaration of the second one. -/
theorem second_interleaved_not_reported :
    TestedAt interleaved true 16 ⟨['B'], "true".toList⟩ ∧
      constantFinding interleaved "<string>" true 16 ⟨['B'], "true".toList⟩ ∉
        deadConditionals interleaved "<string>" := by
  refine ⟨testedAt_interleaved, fun hreported => ?_⟩
  have hread : testedConstant? true (interleaved.drop 0) =
      some (⟨['A'], "true".toList⟩, " \x7b\x7d\nif (B) \x7b\x7d\n".toList) := by decide +kernel
  have hspan : SpanAt interleaved true 0 ⟨['A'], "true".toList⟩ 38 :=
    ⟨_, testedConstant?_eq_some_iff.mp hread, by decide +kernel⟩
  have hstop := (constantFinding_mem_deadConditionals_iff testedAt_interleaved).mp hreported 0 _ 38
    hspan (by decide +kernel) (by decide)
  exact absurd hstop (by decide)

/-- Not every tested constant is reported. -/
theorem not_all_tested_reported :
    ¬ ∀ content file outcome i d, TestedAt content outcome i d →
      constantFinding content file outcome i d ∈ deadConditionals content file := by
  intro h
  have hreported := h interleaved "<string>" true 16 ⟨['B'], "true".toList⟩ testedAt_interleaved
  revert hreported
  decide +kernel

end FlagAudit.Detect
