import FlagAudit.Proofs.Glob.Parts
import FlagAudit.Proofs.Path.Relative

/-!
# Globs that reach every depth

A pattern that starts with two stars and a slash matches a path, bare or behind a dot, exactly if the
rest of the pattern matches some of the last parts of the path, all of them included
(`cuts_anyDepth_iff`). If the rest has no slash and no pair of stars, only the last part counts
(`cuts_anyDepth_within_iff`); if it is a name and then two stars behind a slash, the name has to be
among the parts before the last one (`cuts_anyDepth_subtree_iff`).
-/

namespace FlagAudit

namespace Path

/-- The last parts, joined, are a tail of the joined parts. -/
theorem joinParts_suffix {ps qs : List (List Char)} (hqs : qs ≠ []) (h : qs <:+ ps) :
    '/' :: joinParts qs <:+ '/' :: joinParts ps := by
  obtain ⟨rs, rfl⟩ := h
  cases rs with
  | nil => exact List.suffix_refl _
  | cons r rs =>
    rw [joinParts_append (List.cons_ne_nil r rs) hqs]
    exact (List.suffix_append _ _).trans (List.suffix_cons _ _)

/-- A tail of joined parts that starts behind a slash, or at the start, is made of the last parts. -/
theorem slash_suffix_joinParts_iff {ps : List (List Char)} (hne : ps ≠ [])
    (hps : ∀ p ∈ ps, '/' ∉ p) {back : List Char} :
    '/' :: back <:+ '/' :: joinParts ps ↔ ∃ qs, qs ≠ [] ∧ qs <:+ ps ∧ back = joinParts qs := by
  constructor
  · rintro ⟨front, heq⟩
    have hparts := congrArg (List.splitOn '/') heq
    have hsplit : (joinParts ps).splitOn '/' = ps := List.splitOn_intercalate '/' hps hne
    rw [List.splitOn_append_cons_self, ← List.nil_append ('/' :: joinParts ps),
      List.splitOn_append_cons_self, hsplit, List.splitOn_nil] at hparts
    refine ⟨back.splitOn '/', List.splitOn_ne_nil '/' back, ?_, (List.intercalate_splitOn '/').symm⟩
    obtain ⟨first, rest, hfront⟩ := List.exists_cons_of_ne_nil (List.splitOn_ne_nil '/' front)
    rw [hfront, List.cons_append, List.singleton_append, List.cons.injEq] at hparts
    exact ⟨rest, hparts.2⟩
  · rintro ⟨qs, hqs, hsuffix, rfl⟩
    exact joinParts_suffix hqs hsuffix

/-- Joined parts without a slash are one part. -/
theorem joinParts_eq_singleton {ps : List (List Char)} (hne : ps ≠ [])
    (h : '/' ∉ joinParts ps) : ∃ p, ps = [p] := by
  obtain ⟨p, ps, rfl⟩ := List.exists_cons_of_ne_nil hne
  cases ps with
  | nil => exact ⟨p, rfl⟩
  | cons q ps =>
    rw [joinParts_cons p (List.cons_ne_nil q ps)] at h
    exact absurd (List.mem_append_right _ List.mem_cons_self) h

end Path

namespace Glob

open FlagAudit.Path (joinParts)

variable {ts : List Token}

/-! ### Literal texts -/

theorem cuts_literal_iff (text s : List Char) : Cuts (text.map .char) s ↔ s = text := by
  induction text generalizing s with
  | nil => exact cuts_nil_iff s
  | cons c text ih =>
    rw [List.map_cons, cuts_cons_iff]
    constructor
    · rintro ⟨_, rest, rfl, rfl, hrest⟩
      rw [(ih rest).mp hrest]
      rfl
    · rintro rfl
      exact ⟨[c], text, rfl, rfl, (ih text).mpr rfl⟩

theorem cuts_literal_append_iff (text : List Char) (s : List Char) :
    Cuts (text.map .char ++ ts) s ↔ ∃ rest, s = text ++ rest ∧ Cuts ts rest := by
  rw [cuts_append_iff]
  simp only [cuts_literal_iff]
  constructor
  · rintro ⟨_, rest, rfl, rfl, hrest⟩
    exact ⟨rest, rfl, hrest⟩
  · rintro ⟨rest, rfl, hrest⟩
    exact ⟨text, rest, rfl, rfl, hrest⟩

/-- Characters that are neither stars nor opening braces stand for themselves. -/
theorem partTokens_literal_append {text part : List Char}
    (htext : ∀ c ∈ text, c ≠ '*' ∧ c ≠ '\x7b') (h : PartTokens part ts) :
    PartTokens (text ++ part) (text.map .char ++ ts) := by
  induction text with
  | nil => exact h
  | cons c text ih =>
    rw [List.forall_mem_cons] at htext
    exact .char htext.1.1 (fun hbrace => absurd hbrace htext.1.2) (ih htext.2)

/-! ### Every depth -/

/-- The tokens of a pattern at every depth. -/
def anyDepth (ts : List Token) : List Token := .pair :: .char '/' :: ts

theorem patternTokens_anyDepth {pattern : List Char} (h : PatternTokens pattern ts) :
    PatternTokens ('*' :: '*' :: '/' :: pattern) (anyDepth ts) :=
  (@patternTokens_slash_iff ['*', '*'] pattern (by decide) _).mpr
    ⟨[.pair], ts, .pair .nil, h, rfl⟩

/-- A pair of stars takes what is before some slash. -/
theorem cuts_anyDepth (s : List Char) :
    Cuts (anyDepth ts) s ↔ ∃ front back, s = front ++ '/' :: back ∧ '\n' ∉ front ∧ Cuts ts back := by
  rw [anyDepth, cuts_cons_iff]
  constructor
  · rintro ⟨front, _, rfl, hfront, hbehind⟩
    obtain ⟨_, back, rfl, rfl, hback⟩ := (cuts_cons_iff ..).mp hbehind
    exact ⟨front, back, rfl, hfront, hback⟩
  · rintro ⟨front, back, rfl, hfront, hback⟩
    exact ⟨front, '/' :: back, rfl, hfront, (cuts_cons_iff ..).mpr ⟨['/'], back, rfl, rfl, hback⟩⟩

/-- Bare or behind a dot, a text is cut behind a slash or taken as a whole. -/
theorem cuts_anyDepth_or_dot_iff {s : List Char} (hline : '\n' ∉ s) :
    Cuts (anyDepth ts) s ∨ Cuts (anyDepth ts) ('.' :: '/' :: s) ↔
      ∃ back, '/' :: back <:+ '/' :: s ∧ Cuts ts back := by
  rw [cuts_anyDepth, cuts_anyDepth]
  constructor
  · rintro (⟨front, back, rfl, -, hback⟩ | ⟨front, back, heq, -, hback⟩)
    · exact ⟨back, (List.suffix_append _ _).trans (List.suffix_cons _ _), hback⟩
    · cases front with
      | nil => simp at heq
      | cons c front =>
        rw [List.cons_append, List.cons.injEq] at heq
        exact ⟨back, ⟨front, heq.2.symm⟩, hback⟩
  · rintro ⟨back, ⟨front, heq⟩, hback⟩
    -- Behind the dot there is a slash even before the whole text.
    refine .inr ⟨'.' :: front, back, by rw [List.cons_append, heq], ?_, hback⟩
    rw [List.mem_cons, not_or]
    refine ⟨by decide, fun hmem => ?_⟩
    rcases List.mem_cons.mp (heq ▸ List.mem_append_left _ hmem) with h | h
    · exact absurd h (by decide)
    · exact hline h

variable {ps : List (List Char)}

/-- At every depth, a pattern stands for the last parts of a path. -/
theorem cuts_anyDepth_iff (hne : ps ≠ []) (hslash : ∀ p ∈ ps, '/' ∉ p)
    (hline : '\n' ∉ joinParts ps) :
    Cuts (anyDepth ts) (joinParts ps) ∨ Cuts (anyDepth ts) ('.' :: '/' :: joinParts ps) ↔
      ∃ qs, qs ≠ [] ∧ qs <:+ ps ∧ Cuts ts (joinParts qs) := by
  rw [cuts_anyDepth_or_dot_iff hline]
  simp only [Path.slash_suffix_joinParts_iff hne hslash]
  constructor
  · rintro ⟨_, ⟨qs, hqs, hsuffix, rfl⟩, hcuts⟩
    exact ⟨qs, hqs, hsuffix, hcuts⟩
  · rintro ⟨qs, hqs, hsuffix, hcuts⟩
    exact ⟨_, ⟨qs, hqs, hsuffix, rfl⟩, hcuts⟩

/-- At every depth, tokens that stay within a part stand for the last part of a path. -/
theorem cuts_anyDepth_within_iff (hts : ∀ t ∈ ts, t.Within) {last : List Char}
    (hslash : ∀ p ∈ ps ++ [last], '/' ∉ p) (hline : '\n' ∉ joinParts (ps ++ [last])) :
    Cuts (anyDepth ts) (joinParts (ps ++ [last])) ∨
        Cuts (anyDepth ts) ('.' :: '/' :: joinParts (ps ++ [last])) ↔ Cuts ts last := by
  have hne : ps ++ [last] ≠ [] := List.append_ne_nil_of_right_ne_nil _ (List.cons_ne_nil _ _)
  have hlast : joinParts [last] = last := List.intercalate_singleton ..
  rw [cuts_anyDepth_iff hne hslash hline]
  constructor
  · rintro ⟨qs, hqs, hsuffix, hcuts⟩
    obtain ⟨q, rfl⟩ := Path.joinParts_eq_singleton hqs (slash_not_mem_of_cuts hts hcuts)
    obtain ⟨rs, heq⟩ := hsuffix
    obtain ⟨-, hq⟩ := List.append_inj' heq rfl
    rw [hq, hlast] at hcuts
    exact hcuts
  · intro hcuts
    exact ⟨[last], List.cons_ne_nil _ _, List.suffix_append _ _, hlast.symm ▸ hcuts⟩

theorem cuts_slash_pair_iff (s : List Char) :
    Cuts [.char '/', .pair] s ↔ ∃ rest, s = '/' :: rest ∧ '\n' ∉ rest := by
  rw [cuts_cons_iff]
  constructor
  · rintro ⟨_, _, rfl, rfl, hrest⟩
    obtain ⟨rest, _, rfl, hrest, hnil⟩ := (cuts_cons_iff ..).mp hrest
    rw [(cuts_nil_iff _).mp hnil, List.append_nil]
    exact ⟨rest, rfl, hrest⟩
  · rintro ⟨rest, rfl, hrest⟩
    refine ⟨['/'], rest, rfl, rfl, (cuts_cons_iff ..).mpr ?_⟩
    exact ⟨rest, [], (List.append_nil rest).symm, hrest, (cuts_nil_iff []).mpr rfl⟩

/-- Of the last parts, all but the very last are before it. -/
theorem mem_of_suffix_concat {name next last : List Char} {qs ps : List (List Char)}
    (h : name :: next :: qs <:+ ps ++ [last]) : name ∈ ps := by
  obtain ⟨rs, heq⟩ := h
  have hdrop := congrArg List.dropLast heq
  rw [List.dropLast_concat, List.dropLast_append_of_ne_nil (List.cons_ne_nil _ _),
    List.dropLast_cons_of_ne_nil (List.cons_ne_nil _ _)] at hdrop
  rw [← hdrop]
  exact List.mem_append_right _ List.mem_cons_self

/-- At every depth, a name with two stars behind a slash stands for the paths that have the name
before their last part. -/
theorem cuts_anyDepth_subtree_iff {name last : List Char} (hname : '/' ∉ name)
    (hslash : ∀ p ∈ ps ++ [last], '/' ∉ p) (hline : '\n' ∉ joinParts (ps ++ [last])) :
    Cuts (anyDepth (name.map .char ++ [.char '/', .pair])) (joinParts (ps ++ [last])) ∨
        Cuts (anyDepth (name.map .char ++ [.char '/', .pair]))
          ('.' :: '/' :: joinParts (ps ++ [last])) ↔ name ∈ ps := by
  have hne : ps ++ [last] ≠ [] := List.append_ne_nil_of_right_ne_nil _ (List.cons_ne_nil _ _)
  rw [cuts_anyDepth_iff hne hslash hline]
  simp only [cuts_literal_append_iff, cuts_slash_pair_iff]
  constructor
  · rintro ⟨qs, hqs, hsuffix, _, heq, rest, rfl, -⟩
    obtain ⟨q, qs, rfl⟩ := List.exists_cons_of_ne_nil hqs
    have hq : '/' ∉ q := hslash q (hsuffix.subset List.mem_cons_self)
    cases qs with
    | nil =>
      rw [show joinParts [q] = q from List.intercalate_singleton ..] at heq
      exact absurd (heq ▸ List.mem_append_right _ List.mem_cons_self) hq
    | cons next qs =>
      rw [Path.joinParts_cons q (List.cons_ne_nil next qs)] at heq
      obtain ⟨rfl, -⟩ := eq_of_append_cons hq hname heq
      exact mem_of_suffix_concat hsuffix
  · intro hmem
    obtain ⟨before, behind, rfl⟩ := List.append_of_mem hmem
    have hbehind : behind ++ [last] ≠ [] :=
      List.append_ne_nil_of_right_ne_nil _ (List.cons_ne_nil _ _)
    have hsuffix : name :: (behind ++ [last]) <:+ before ++ name :: behind ++ [last] :=
      ⟨before, by simp⟩
    have hrest := Path.joinParts_suffix hbehind ((List.suffix_cons name _).trans hsuffix)
    refine ⟨_, List.cons_ne_nil _ _, hsuffix, _, Path.joinParts_cons name hbehind, _, rfl, ?_⟩
    intro hmem
    rcases List.mem_cons.mp (hrest.subset (List.mem_cons_of_mem _ hmem)) with h | h
    · exact absurd h (by decide)
    · exact hline h

end Glob

end FlagAudit
