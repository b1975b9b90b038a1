import FlagAudit.Proofs.Glob.Depth

/-!
# Globs without wildcards

A pattern without a star and without a group has nothing to choose from: each of its characters stands
for itself, a brace that opens or closes no group too. So it matches the path that is spelled like it, and
besides that only the same path with a line feed behind it (`matchesPath_literal_iff`): the end of the
expression of a glob lies before a last line feed as well, and what is behind it is not looked at. In
particular the empty pattern matches the path that is a single line feed.
-/

namespace FlagAudit.Glob

variable {text part pattern : List Char}

/-! ### Texts that stand for themselves -/

/-- There is a group in a text: an opening brace, a body that is not empty, and the next closing brace,
with no slash in between. -/
def HasGroup (text : List Char) : Prop :=
  ∃ before body after, body ≠ [] ∧ '\x7d' ∉ body ∧ '/' ∉ body ∧
    text = before ++ '\x7b' :: (body ++ '\x7d' :: after)

/-- A group is at the start of a text, or behind its first character. -/
theorem hasGroup_cons_iff (c : Char) (text : List Char) :
    HasGroup (c :: text) ↔
      (c = '\x7b' ∧ (groupBody? text).any (fun g => !g.1.contains '/') = true) ∨ HasGroup text := by
  rw [Option.any_eq_true]
  constructor
  · rintro ⟨before, body, after, hne, hbody, hslash, heq⟩
    cases before with
    | nil =>
      rw [List.nil_append, List.cons.injEq] at heq
      obtain ⟨rfl, rfl⟩ := heq
      exact .inl ⟨rfl, (body, after), groupBody?_eq_some_iff.mpr ⟨hne, hbody, rfl⟩, by simpa using hslash⟩
    | cons b before =>
      rw [List.cons_append, List.cons.injEq] at heq
      exact .inr ⟨before, body, after, hne, hbody, hslash, heq.2⟩
  · rintro (⟨rfl, ⟨body, after⟩, hgroup, hslash⟩ | ⟨before, body, after, hne, hbody, hslash, rfl⟩)
    · obtain ⟨hne, hbody, rfl⟩ := groupBody?_eq_some_iff.mp hgroup
      exact ⟨[], body, after, hne, hbody, by simpa using hslash, rfl⟩
    · exact ⟨c :: before, body, after, hne, hbody, hslash, rfl⟩

instance decidableHasGroup : DecidablePred HasGroup
  | [] => isFalse (by simp [HasGroup])
  | c :: text =>
    have := decidableHasGroup text
    decidable_of_iff' _ (hasGroup_cons_iff c text)

/-- A text without stars and groups. -/
structure IsLiteral (text : List Char) : Prop where
  /-- It has no star. -/
  noStar : '*' ∉ text
  /-- It has no group. -/
  noGroup : ¬ HasGroup text

instance : DecidablePred IsLiteral := fun text =>
  decidable_of_iff ('*' ∉ text ∧ ¬ HasGroup text) ⟨fun h => ⟨h.1, h.2⟩, fun h => ⟨h.noStar, h.noGroup⟩⟩

/-- What is in a text without stars and groups has none either. -/
theorem IsLiteral.of_infix (h : IsLiteral text) (hpart : part <:+: text) : IsLiteral part := by
  refine ⟨fun hmem => h.noStar (hpart.subset hmem), ?_⟩
  rintro ⟨before, body, after, hne, hbody, hslash, rfl⟩
  obtain ⟨front, back, rfl⟩ := hpart
  exact h.noGroup ⟨front ++ before, body, after ++ back, hne, hbody, hslash, by simp⟩

/-! ### Their tokens -/

/-- A part of a pattern without stars and groups is made of characters. -/
theorem IsLiteral.partTokens (h : IsLiteral part) (hslash : '/' ∉ part) :
    PartTokens part (part.map .char) := by
  induction part with
  | nil => exact .nil
  | cons c part ih =>
    have hpart : IsLiteral part := h.of_infix (List.suffix_cons c part).isInfix
    have hstar : c ≠ '*' := fun heq => h.noStar (heq ▸ List.mem_cons_self)
    rw [List.mem_cons, not_or] at hslash
    refine .char hstar ?_ (ih hpart hslash.2)
    rintro rfl ⟨body, after, hne, hbody, rfl⟩
    -- A group of a part is a group of the pattern, since a part has no slash.
    have hbodySlash : '/' ∉ body := fun hmem => hslash.2 (List.mem_append_left _ hmem)
    exact h.noGroup ⟨[], body, after, hne, hbody, hbodySlash, rfl⟩

/-- A pattern without stars and groups is made of characters, its slashes among them. -/
theorem IsLiteral.patternTokens (h : IsLiteral pattern) :
    PatternTokens pattern (pattern.map .char) := by
  induction hn : pattern.length using Nat.strongRecOn generalizing pattern with
  | _ n ih =>
    subst hn
    by_cases hslash : '/' ∈ pattern
    · obtain ⟨first, rest, rfl, hfirst⟩ := List.eq_append_cons_of_mem hslash
      have hrest : IsLiteral rest :=
        h.of_infix ((List.suffix_cons '/' rest).trans (List.suffix_append first _)).isInfix
      have hlt : rest.length < (first ++ '/' :: rest).length := by
        simp only [List.length_append, List.length_cons]
        omega
      rw [patternTokens_slash_iff hfirst]
      exact ⟨_, _, (h.of_infix (List.prefix_append first _).isInfix).partTokens hfirst,
        ih rest.length hlt hrest rfl, by simp⟩
    · exact (patternTokens_iff_of_part hslash).mpr (h.partTokens hslash)

/-! ### Paths that are spelled like a pattern -/

/-- A pattern without stars and groups matches a path exactly if the path, with slashes for its
backslashes, is the pattern, or the pattern with a line feed behind it. -/
theorem matchesPath_literal_iff {pattern : String} (h : IsLiteral pattern.toList) (path : String) :
    matchesPath pattern path = true ↔
      slashed path = pattern.toList ∨ slashed path = pattern.toList ++ ['\n'] := by
  rw [matchesPath_iff_of_tokens h.patternTokens, cuts_literal_iff]
  refine or_congr_right ?_
  constructor
  · rintro ⟨line, heq, hline⟩
    rw [heq, (cuts_literal_iff _ _).mp hline]
  · intro heq
    exact ⟨pattern.toList, heq, (cuts_literal_iff _ _).mpr rfl⟩

/-- Braces that make no group, and the characters that mean something in an expression, stand for
themselves. -/
theorem matchesPath_loose_braces :
    IsLiteral "a\x7b/b\x7d/\x7b\x7d\x7d\x7b(.+)".toList ∧
      matchesPath "a\x7b/b\x7d/\x7b\x7d\x7d\x7b(.+)" "a\x7b\\b\x7d/\x7b\x7d\x7d\x7b(.+)" = true ∧
      matchesPath "a\x7b/b\x7d/\x7b\x7d\x7d\x7b(.+)" "ab/\x7b\x7d\x7d\x7bxx" = false := by
  have h : IsLiteral "a\x7b/b\x7d/\x7b\x7d\x7d\x7b(.+)".toList := by decide
  refine ⟨h, (matchesPath_literal_iff h _).mpr (.inl (by decide)), ?_⟩
  rw [← Bool.not_eq_true, matchesPath_literal_iff h]
  decide

/-- Such a pattern does not match itself alone: the empty one matches a line feed. -/
theorem literal_matches_more :
    ¬ ∀ pattern path : String, IsLiteral pattern.toList →
      (matchesPath pattern path = true ↔ slashed path = pattern.toList) := by
  intro h
  have hfeed : matchesPath "" "\n" = true := by decide +kernel
  have heq : slashed "\n" = "".toList := (h "" "\n" (by decide)).mp hfeed
  revert heq
  decide

end FlagAudit.Glob
