import FlagAudit.Glob.Match
import Mathlib.Data.List.Forall2

/-!
# The language of a glob

A glob is read as a list of tokens, and a text belongs to its language if it can be cut into pieces
that the tokens stand for, one after the other. The tokens of a part of a pattern are given by a
relation, from left to right: a group where one opens, a pair of stars, a star that has no partner,
and any other character as itself. The tokens of a pattern are those of its parts with slashes
between them.

Each pattern has tokens (`exists_patternTokens`), and only one list of them
(`PatternTokens.unique`).
-/

namespace FlagAudit.Glob

/-- A token of a glob. -/
inductive Token where
  /-- A character that stands for itself. -/
  | char (c : Char)
  /-- A group: one of some texts. -/
  | oneOf (texts : List (List Char))
  /-- A single star. -/
  | star
  /-- A pair of stars. -/
  | pair
  deriving DecidableEq, Repr

/-- The texts that a token stands for. -/
def Token.StandsFor : Token → List Char → Prop
  | .char c, s => s = [c]
  | .oneOf texts, s => s ∈ texts
  | .star, s => '/' ∉ s
  | .pair, s => '\n' ∉ s

/-- A text that can be cut into pieces for the tokens. -/
def Cuts (ts : List Token) (s : List Char) : Prop :=
  ∃ pieces, List.Forall₂ Token.StandsFor ts pieces ∧ s = pieces.flatten

theorem cuts_nil_iff (s : List Char) : Cuts [] s ↔ s = [] := by
  constructor
  · rintro ⟨pieces, h, rfl⟩
    cases h
    rfl
  · rintro rfl
    exact ⟨[], .nil, rfl⟩

theorem cuts_cons_iff (t : Token) (ts : List Token) (s : List Char) :
    Cuts (t :: ts) s ↔ ∃ piece rest, s = piece ++ rest ∧ t.StandsFor piece ∧ Cuts ts rest := by
  constructor
  · rintro ⟨pieces, h, rfl⟩
    cases h with
    | cons ht hts => exact ⟨_, _, rfl, ht, _, hts, rfl⟩
  · rintro ⟨piece, _, rfl, ht, pieces, hts, rfl⟩
    exact ⟨piece :: pieces, .cons ht hts, rfl⟩

/-! ### Tokens of a part -/

/-- A group opens before the text: a body that is not empty, up to the next closing brace. -/
def OpensGroup (s : List Char) : Prop :=
  ∃ body rest, body ≠ [] ∧ '\x7d' ∉ body ∧ s = body ++ '\x7d' :: rest

/-- The tokens of a part of a pattern. -/
inductive PartTokens : List Char → List Token → Prop where
  /-- Nothing is left. -/
  | nil : PartTokens [] []
  /-- A group stands for the texts between its commas, without the blanks around them. -/
  | group {body rest : List Char} {ts : List Token} (hne : body ≠ []) (hbody : '\x7d' ∉ body) :
      PartTokens rest ts →
        PartTokens ('\x7b' :: (body ++ '\x7d' :: rest))
          (.oneOf ((body.splitOn ',').map Text.trim) :: ts)
  /-- Two stars are a pair. -/
  | pair {rest : List Char} {ts : List Token} :
      PartTokens rest ts → PartTokens ('*' :: '*' :: rest) (.pair :: ts)
  /-- A star without another behind it is left over. -/
  | star {rest : List Char} {ts : List Token} (hrest : rest.head? ≠ some '*') :
      PartTokens rest ts → PartTokens ('*' :: rest) (.star :: ts)
  /-- Any other character stands for itself, a brace too if it opens no group. -/
  | char {c : Char} {rest : List Char} {ts : List Token} (hstar : c ≠ '*')
      (hgroup : c = '\x7b' → ¬ OpensGroup rest) :
      PartTokens rest ts → PartTokens (c :: rest) (.char c :: ts)

/-- A text is cut at the first occurrence of a character in one way only. -/
theorem eq_of_append_cons {c : Char} {front front' back back' : List Char} (h : c ∉ front)
    (h' : c ∉ front') (heq : front ++ c :: back = front' ++ c :: back') :
    front = front' ∧ back = back' := by
  have hparts := congrArg (List.splitOn c) heq
  rw [List.splitOn_append_cons_self_of_not_mem h, List.splitOn_append_cons_self_of_not_mem h']
    at hparts
  obtain rfl := (List.cons.inj hparts).1
  exact ⟨rfl, by simpa using heq⟩

/-- A part has only one list of tokens. -/
theorem PartTokens.unique {s : List Char} {ts ts' : List Token} (h : PartTokens s ts)
    (h' : PartTokens s ts') : ts = ts' := by
  induction h generalizing ts' with
  | nil => cases h'; rfl
  | @group body rest ts hne hbody _ ih =>
    generalize hs : '\x7b' :: (body ++ '\x7d' :: rest) = s at h'
    cases h' with
    | nil => simp at hs
    | group _ hbody' hrest =>
      simp only [List.cons.injEq, true_and] at hs
      obtain ⟨rfl, rfl⟩ := eq_of_append_cons hbody hbody' hs
      rw [ih hrest]
    | pair _ => simp at hs
    | star _ _ => simp at hs
    | char _ hgroup _ =>
      simp only [List.cons.injEq] at hs
      exact absurd ⟨body, rest, hne, hbody, hs.2.symm⟩ (hgroup hs.1.symm)
  | pair _ ih =>
    cases h' with
    | pair h' => rw [ih h']
    | star hrest _ => simp at hrest
    | char hstar _ _ => exact absurd rfl hstar
  | star hrest _ ih =>
    cases h' with
    | pair _ => simp at hrest
    | star _ h' => rw [ih h']
    | char hstar _ _ => exact absurd rfl hstar
  | @char c rest ts hstar hgroup _ ih =>
    generalize hs : c :: rest = s at h'
    cases h' with
    | nil => simp at hs
    | group hne hbody _ =>
      simp only [List.cons.injEq] at hs
      exact absurd ⟨_, _, hne, hbody, hs.2⟩ (hgroup hs.1)
    | pair _ => simp only [List.cons.injEq] at hs; exact absurd hs.1 hstar
    | star _ _ => simp only [List.cons.injEq] at hs; exact absurd hs.1 hstar
    | char _ _ h' =>
      simp only [List.cons.injEq] at hs
      obtain ⟨rfl, rfl⟩ := hs
      rw [ih h']

/-- Each part has tokens. -/
theorem exists_partTokens (s : List Char) : ∃ ts, PartTokens s ts := by
  induction hn : s.length using Nat.strongRecOn generalizing s with
  | _ n ih =>
    subst hn
    cases s with
    | nil => exact ⟨[], .nil⟩
    | cons c rest =>
      obtain ⟨ts, hts⟩ := ih rest.length (by simp) rest rfl
      by_cases hstar : c = '*'
      · subst hstar
        by_cases hrest : rest.head? = some '*'
        · obtain ⟨rest, rfl⟩ := List.head?_eq_some_iff.mp hrest
          have hlt : rest.length < ('*' :: '*' :: rest).length := by
            simp only [List.length_cons]
            omega
          obtain ⟨ts, hts⟩ := ih rest.length hlt rest rfl
          exact ⟨_, .pair hts⟩
        · exact ⟨_, .star hrest hts⟩
      · by_cases hgroup : c = '\x7b' ∧ OpensGroup rest
        · obtain ⟨rfl, body, rest, hne, hbody, rfl⟩ := hgroup
          obtain ⟨ts, hts⟩ := ih rest.length (by simp; omega) rest rfl
          exact ⟨_, .group hne hbody hts⟩
        · exact ⟨_, .char hstar (fun hc hg => hgroup ⟨hc, hg⟩) hts⟩

/-! ### Tokens of a pattern -/

/-- The tokens of a pattern: those of its parts, with slashes between them. -/
def PatternTokens (pattern : List Char) (ts : List Token) : Prop :=
  ∃ tss, List.Forall₂ PartTokens (pattern.splitOn '/') tss ∧ ts = [Token.char '/'].intercalate tss

/-- Each pattern has tokens. -/
theorem exists_patternTokens (pattern : List Char) : ∃ ts, PatternTokens pattern ts := by
  suffices ∀ parts : List (List Char), ∃ tss, List.Forall₂ PartTokens parts tss by
    obtain ⟨tss, h⟩ := this (pattern.splitOn '/')
    exact ⟨_, tss, h, rfl⟩
  intro parts
  induction parts with
  | nil => exact ⟨[], .nil⟩
  | cons part parts ih =>
    obtain ⟨ts, hts⟩ := exists_partTokens part
    obtain ⟨tss, htss⟩ := ih
    exact ⟨ts :: tss, .cons hts htss⟩

/-- A pattern has only one list of tokens. -/
theorem PatternTokens.unique {pattern : List Char} {ts ts' : List Token}
    (h : PatternTokens pattern ts) (h' : PatternTokens pattern ts') : ts = ts' := by
  obtain ⟨tss, h, rfl⟩ := h
  obtain ⟨tss', h', rfl⟩ := h'
  have : Relator.RightUnique PartTokens := fun _ _ _ h h' => h.unique h'
  rw [List.right_unique_forall₂' this h h']

end FlagAudit.Glob
