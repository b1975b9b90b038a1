import FlagAudit.Proofs.Glob.Language
import Mathlib.Data.List.TakeWhile

/-!
# The expression of a glob, token by token

The expression of a pattern is built in passes: the pattern is split at slashes, a part at its
groups, the text between groups at pairs of stars, and what is left at single stars. Here it is
shown to be the expressions of the pattern's tokens, one after the other (`expression_eq`).
-/

namespace FlagAudit.Glob

/-- The expression of a token. -/
def Token.expression : Token → List Char
  | .char c => literally [c]
  | .oneOf texts => ['(', '?', ':'] ++ ['|'].intercalate (texts.map literally) ++ [')']
  | .star => runWithinPart
  | .pair => anyRun

theorem literally_cons (c : Char) (s : List Char) : literally (c :: s) = literally [c] ++ literally s := by
  simp [literally]

/-- Putting something before the first of some texts puts it before all of them together. -/
theorem intercalate_modifyHead {sep s : List Char} {ps : List (List Char)} (h : ps ≠ []) :
    sep.intercalate (ps.modifyHead (s ++ ·)) = s ++ sep.intercalate ps := by
  match ps, h with
  | [p], _ => simp
  | p :: q :: ps, _ => simp

/-! ### Text between groups -/

theorem splitAtPairs_pair (s : List Char) : splitAtPairs ('*' :: '*' :: s) = [] :: splitAtPairs s := by
  rw [splitAtPairs]

/-- A character that does not begin a pair of stars belongs to the first piece. -/
theorem splitAtPairs_cons {c : Char} {s : List Char} (h : c = '*' → s.head? ≠ some '*') :
    splitAtPairs (c :: s) = (splitAtPairs s).modifyHead (c :: ·) := by
  rw [splitAtPairs]
  intro rest hc hs
  exact h hc (by rw [hs]; rfl)

theorem splitAtPairs_ne_nil (s : List Char) : splitAtPairs s ≠ [] := by
  fun_induction splitAtPairs s <;> simp_all

theorem wildcards_nil : wildcards [] = [] := by
  simp [wildcards, splitAtPairs, literally]

theorem wildcards_pair (s : List Char) : wildcards ('*' :: '*' :: s) = anyRun ++ wildcards s := by
  simp only [wildcards, splitAtPairs_pair, List.map_cons, List.splitOn_nil, List.map_nil,
    List.intercalate_singleton]
  rw [List.intercalate_cons_of_ne_nil (by simpa using splitAtPairs_ne_nil s)]
  simp [literally]

/-- What the first piece begins with comes first in the expression. -/
theorem wildcards_of_splitAtPairs {s s' e : List Char} {f : List Char → List Char}
    (h : splitAtPairs s' = (splitAtPairs s).modifyHead f)
    (hf : ∀ p : List Char, runWithinPart.intercalate (((f p).splitOn '*').map literally) =
      e ++ runWithinPart.intercalate ((p.splitOn '*').map literally)) :
    wildcards s' = e ++ wildcards s := by
  rw [wildcards, wildcards, h]
  match hs : splitAtPairs s, splitAtPairs_ne_nil s with
  | [p], _ => simp [hf]
  | p :: q :: ps, _ => simp [hf]

theorem wildcards_star {s : List Char} (h : s.head? ≠ some '*') :
    wildcards ('*' :: s) = runWithinPart ++ wildcards s := by
  refine wildcards_of_splitAtPairs (splitAtPairs_cons fun _ => h) fun p => ?_
  rw [List.splitOn_cons_eq_if_modifyHead, if_pos (by simp), List.map_cons,
    List.intercalate_cons_of_ne_nil (by simp)]
  simp [literally]

theorem wildcards_char {c : Char} (hc : c ≠ '*') (s : List Char) :
    wildcards (c :: s) = literally [c] ++ wildcards s := by
  refine wildcards_of_splitAtPairs (splitAtPairs_cons fun h => absurd h hc) fun p => ?_
  rw [List.splitOn_cons_eq_if_modifyHead, if_neg (by simpa using hc),
    ← intercalate_modifyHead (by simp)]
  match hp : p.splitOn '*', List.splitOn_ne_nil '*' p with
  | q :: qs, _ => simp [literally_cons c q]

/-! ### Groups -/

/-- A group is found where one opens, and nowhere else. -/
theorem groupBody?_eq_some_iff {s body rest : List Char} :
    groupBody? s = some (body, rest) ↔ body ≠ [] ∧ '\x7d' ∉ body ∧ s = body ++ '\x7d' :: rest := by
  constructor
  · intro h
    have heq := eq_of_groupBody? h
    unfold groupBody? at h
    split at h
    · next c cs t h₁ h₂ =>
      simp only [Option.some.injEq, Prod.mk.injEq] at h
      obtain ⟨rfl, rfl⟩ := h
      refine ⟨List.cons_ne_nil _ _, fun hm => ?_, heq⟩
      exact absurd (List.mem_takeWhile_imp (h₁ ▸ hm)) (by decide)
    · simp at h
  · rintro ⟨hne, hbody, rfl⟩
    have hall : ∀ c ∈ body, (c != '\x7d') = true := fun c hc => by
      simpa using fun h : c = '\x7d' => hbody (h ▸ hc)
    have h₁ : (body ++ '\x7d' :: rest).takeWhile (· != '\x7d') = body := by
      rw [List.takeWhile_append_of_pos hall]
      simp
    have h₂ : (body ++ '\x7d' :: rest).dropWhile (· != '\x7d') = '\x7d' :: rest := by
      rw [List.dropWhile_append_of_pos hall]
      simp
    obtain ⟨c, body, rfl⟩ := List.exists_cons_of_ne_nil hne
    simp only [groupBody?, h₁, h₂]

theorem groupBody?_eq_none {s : List Char} (h : ¬ OpensGroup s) : groupBody? s = none := by
  rw [Option.eq_none_iff_forall_ne_some]
  rintro ⟨body, rest⟩ hs
  exact h ⟨body, rest, groupBody?_eq_some_iff.mp hs⟩

theorem cutAtGroups_group {body rest : List Char} (hne : body ≠ []) (hbody : '\x7d' ∉ body) :
    cutAtGroups ('\x7b' :: (body ++ '\x7d' :: rest)) =
      ([], (body, (cutAtGroups rest).1) :: (cutAtGroups rest).2) := by
  rw [cutAtGroups]
  have : groupBody? (body ++ '\x7d' :: rest) = some (body, rest) :=
    groupBody?_eq_some_iff.mpr ⟨hne, hbody, rfl⟩
  split
  · next body' rest' h =>
    rw [this, Option.some.injEq, Prod.mk.injEq] at h
    obtain ⟨rfl, rfl⟩ := h
    rfl
  · next h => simp [this] at h

theorem cutAtGroups_cons {c : Char} {rest : List Char} (h : c = '\x7b' → ¬ OpensGroup rest) :
    cutAtGroups (c :: rest) = (c :: (cutAtGroups rest).1, (cutAtGroups rest).2) := by
  by_cases hc : c = '\x7b'
  · subst hc
    have := groupBody?_eq_none (h rfl)
    rw [cutAtGroups]
    split
    · next h => simp [this] at h
    · rfl
  · rw [cutAtGroups]
    exact hc

/-! ### Parts and patterns -/

/-- The expression of a part from the pieces that its groups cut it into. The part that is nothing
but a pair of stars is no exception. -/
theorem partExpression_eq_cut (part : List Char) :
    partExpression part = wildcards (cutAtGroups part).1 ++
      (cutAtGroups part).2.flatMap fun g => groupExpression g.1 ++ wildcards g.2 := by
  rw [partExpression]
  split
  · next h =>
    rw [beq_iff_eq] at h
    subst h
    rw [cutAtGroups_cons (by simp), cutAtGroups_cons (by simp), cutAtGroups, wildcards_pair,
      wildcards_nil]
    rfl
  · rfl

/-- The text before the first group begins as the part does. -/
theorem head?_cutAtGroups {s : List Char} {c : Char} (h : (cutAtGroups s).1.head? = some c) :
    s.head? = some c := by
  cases s with
  | nil => simp [cutAtGroups] at h
  | cons d s =>
    by_cases hg : d = '\x7b' ∧ OpensGroup s
    · obtain ⟨rfl, body, rest, hne, hbody, rfl⟩ := hg
      simp [cutAtGroups_group hne hbody] at h
    · rw [cutAtGroups_cons fun hd ho => hg ⟨hd, ho⟩] at h
      exact h

/-- The expression of a part is made of the expressions of its tokens. -/
theorem partExpression_eq {part : List Char} {ts : List Token} (h : PartTokens part ts) :
    partExpression part = ts.flatMap Token.expression := by
  rw [partExpression_eq_cut]
  induction h with
  | nil => simp [cutAtGroups, wildcards_nil]
  | group hne hbody _ ih =>
    rw [cutAtGroups_group hne hbody, wildcards_nil, List.flatMap_cons, List.flatMap_cons, ← ih]
    simp [groupExpression, alternatives, Token.expression]
  | pair _ ih =>
    rw [cutAtGroups_cons (by simp), cutAtGroups_cons (by simp), wildcards_pair,
      List.flatMap_cons, ← ih, List.append_assoc]
    rfl
  | star hrest _ ih =>
    rw [cutAtGroups_cons (by simp), wildcards_star fun h => hrest (head?_cutAtGroups h),
      List.flatMap_cons, ← ih, List.append_assoc]
    rfl
  | char hstar hgroup _ ih =>
    rw [cutAtGroups_cons hgroup, wildcards_char hstar, List.flatMap_cons, ← ih, List.append_assoc]
    rfl

/-- The expression of a pattern is made of the expressions of its tokens. -/
theorem expression_eq {pattern : List Char} {ts : List Token} (h : PatternTokens pattern ts) :
    expression pattern = '^' :: (ts.flatMap Token.expression ++ ['$']) := by
  obtain ⟨tss, h, rfl⟩ := h
  suffices Path.joinParts ((pattern.splitOn '/').map partExpression) =
      ([Token.char '/'].intercalate tss).flatMap Token.expression by
    rw [expression, this]
  generalize pattern.splitOn '/' = parts at h
  induction h with
  | nil => rfl
  | @cons part ts parts tss hpart hparts ih =>
    cases hparts with
    | nil => simp [Path.joinParts, partExpression_eq hpart]
    | cons _ _ =>
      simp only [Path.joinParts, List.map_cons, List.intercalate_cons_cons, List.flatMap_append]
        at ih ⊢
      rw [ih, partExpression_eq hpart]
      rfl

end FlagAudit.Glob
