import FlagAudit.Proofs.Glob.Match

/-!
# Globs for whole subtrees

A pattern whose text ends in two stars matches every continuation of a path that it matches, as long
as no line feed is in it (`matchesPath_append`). The two stars at the end are a pair, or the odd star
of a longer run comes behind a pair: in both cases the pair can take the continuation too.
-/

namespace FlagAudit.Glob

/-! ### Matching, token by token -/

/-- A pattern matches a path if the path can be cut into pieces for the tokens of the pattern, a line
feed at its end aside. -/
theorem matchesPath_iff_of_tokens {pattern : String} {ts : List Token}
    (h : PatternTokens pattern.toList ts) (path : String) :
    matchesPath pattern path = true ↔
      Cuts ts (slashed path) ∨ ∃ line, slashed path = line ++ ['\n'] ∧ Cuts ts line := by
  have hcompile : compile pattern = .ok ⟨regexOf ts, 0⟩ := read_expression h
  rw [matchesPath, hcompile]
  exact matchesStart_iff h.sound _

/-- A path without line feeds has to be cut as a whole. -/
theorem matchesPath_iff_cuts {pattern : String} {ts : List Token}
    (h : PatternTokens pattern.toList ts) {path : String} (hline : '\n' ∉ slashed path) :
    matchesPath pattern path = true ↔ Cuts ts (slashed path) := by
  rw [matchesPath_iff_of_tokens h, or_iff_left]
  rintro ⟨line, heq, -⟩
  exact hline (by simp [heq])

theorem slashed_append (s t : String) : slashed (s ++ t) = slashed s ++ slashed t := by
  rw [slashed, String.toList_append, List.map_append]
  rfl

/-- Slashes for backslashes bring in no line feed. -/
theorem mem_slashed_lineFeed_iff {path : String} : '\n' ∈ slashed path ↔ '\n' ∈ path.toList := by
  rw [slashed, List.mem_map]
  constructor
  · rintro ⟨c, hc, heq⟩
    split at heq
    · simp at heq
    · exact heq ▸ hc
  · intro h
    exact ⟨'\n', h, rfl⟩

/-! ### Tokens at the end of a pattern -/

theorem cuts_append_iff (ts us : List Token) (s : List Char) :
    Cuts (ts ++ us) s ↔ ∃ front back, s = front ++ back ∧ Cuts ts front ∧ Cuts us back := by
  induction ts generalizing s with
  | nil =>
    constructor
    · intro h
      exact ⟨[], s, rfl, (cuts_nil_iff []).mpr rfl, h⟩
    · rintro ⟨front, back, rfl, hfront, hback⟩
      rw [(cuts_nil_iff front).mp hfront]
      exact hback
  | cons t ts ih =>
    rw [List.cons_append, cuts_cons_iff]
    constructor
    · rintro ⟨piece, rest, rfl, hpiece, hrest⟩
      obtain ⟨front, back, rfl, hfront, hback⟩ := (ih rest).mp hrest
      refine ⟨piece ++ front, back, (List.append_assoc ..).symm, ?_, hback⟩
      exact (cuts_cons_iff ..).mpr ⟨piece, front, rfl, hpiece, hfront⟩
    · rintro ⟨front, back, rfl, hfront, hback⟩
      obtain ⟨piece, front, rfl, hpiece, hfront⟩ := (cuts_cons_iff ..).mp hfront
      refine ⟨piece, front ++ back, List.append_assoc .., hpiece, ?_⟩
      exact (ih _).mpr ⟨front, back, rfl, hfront, hback⟩

/-- The last tokens are a pair of stars, or a pair and an odd star. -/
def EndsInPair (ts : List Token) : Prop :=
  ∃ front, ts = front ++ [.pair] ∨ ts = front ++ [.pair, .star]

theorem EndsInPair.append {ts : List Token} (h : EndsInPair ts) (front : List Token) :
    EndsInPair (front ++ ts) := by
  obtain ⟨front', rfl | rfl⟩ := h
  · exact ⟨front ++ front', .inl (List.append_assoc ..).symm⟩
  · exact ⟨front ++ front', .inr (List.append_assoc ..).symm⟩

theorem EndsInPair.cons {ts : List Token} (h : EndsInPair ts) (t : Token) : EndsInPair (t :: ts) :=
  h.append [t]

/-- A pair takes any continuation if what is behind it can do with nothing: then the pair takes what was
behind it too. -/
theorem cuts_pair_append {front back : List Token} (hback : Cuts back []) {s more : List Char}
    (hs : Cuts (front ++ .pair :: back) s) (hline : '\n' ∉ s ++ more) :
    Cuts (front ++ .pair :: back) (s ++ more) := by
  obtain ⟨before, piece, rfl, hbefore, -⟩ := (cuts_append_iff ..).mp hs
  rw [List.append_assoc] at hline ⊢
  refine (cuts_append_iff ..).mpr ⟨before, piece ++ more, rfl, hbefore, ?_⟩
  refine (cuts_cons_iff ..).mpr ⟨piece ++ more, [], (List.append_nil _).symm, ?_, hback⟩
  exact fun hmem => hline (List.mem_append_right _ hmem)

/-- What a pair at the end matches can be continued. -/
theorem EndsInPair.cuts_append {ts : List Token} (h : EndsInPair ts) {s more : List Char}
    (hs : Cuts ts s) (hline : '\n' ∉ s ++ more) : Cuts ts (s ++ more) := by
  have hnothing : Cuts [] [] := (cuts_nil_iff []).mpr rfl
  obtain ⟨front, rfl | rfl⟩ := h
  · exact cuts_pair_append hnothing hs hline
  · have hstar : Cuts [.star] [] := (cuts_cons_iff ..).mpr ⟨[], [], rfl, List.not_mem_nil, hnothing⟩
    exact cuts_pair_append hstar hs hline

/-- Two stars at the end of a text are at the end of what is behind its first character, unless they
are all there is. -/
theorem stars_suffix_cons {c : Char} {s : List Char} (h : ['*', '*'] <:+ c :: s) :
    ['*', '*'] <:+ s ∨ c = '*' ∧ s = ['*'] := by
  rcases List.suffix_cons_iff.mp h with heq | hs
  · rw [List.cons.injEq] at heq
    exact .inr ⟨heq.1.symm, heq.2.symm⟩
  · exact .inl hs

/-- Stars at the end of a part are outside groups, and the first two of a run are a pair. -/
theorem PartTokens.endsInPair {part : List Char} {ts : List Token} (h : PartTokens part ts)
    (hstars : ['*', '*'] <:+ part) : EndsInPair ts := by
  induction h with
  | nil => simp at hstars
  | @group body rest ts hne hbody _ ih =>
    refine (ih ?_).cons _
    -- Behind the closing brace there is room for both stars, because a brace is no star.
    have hlast : ['*', '*'] <:+ '\x7d' :: rest := by
      rw [← List.cons_append] at hstars
      refine List.suffix_of_suffix_length_le hstars (List.suffix_append _ _) ?_
      cases rest with
      | nil =>
        obtain ⟨front, hfront⟩ := hstars
        have hlast := congrArg List.getLast? hfront
        rw [List.getLast?_append_of_ne_nil _ (by simp), List.getLast?_concat] at hlast
        simp at hlast
      | cons => simp
    rcases stars_suffix_cons hlast with hrest | ⟨heq, -⟩
    · exact hrest
    · simp at heq
  | @pair rest ts hrest ih =>
    rcases stars_suffix_cons hstars with hstars | ⟨-, heq⟩
    · rcases stars_suffix_cons hstars with hstars | ⟨-, rfl⟩
      · exact (ih hstars).cons _
      · have htokens : ts = [.star] := hrest.unique (.star (by simp) .nil)
        exact ⟨[], .inr (by rw [htokens]; rfl)⟩
    · have hnil : rest = [] := by simpa using heq
      subst hnil
      have htokens : ts = [] := hrest.unique .nil
      exact ⟨[], .inl (by rw [htokens]; rfl)⟩
  | star hodd _ ih =>
    rcases stars_suffix_cons hstars with hstars | ⟨-, rfl⟩
    · exact (ih hstars).cons _
    · simp at hodd
  | char hne _ _ ih =>
    rcases stars_suffix_cons hstars with hstars | ⟨rfl, -⟩
    · exact (ih hstars).cons _
    · exact absurd rfl hne

/-- Two stars at the end of a pattern are at the end of its last part. -/
theorem exists_last_part {pattern : List Char} (h : ['*', '*'] <:+ pattern) :
    ∃ parts part, pattern.splitOn '/' = parts ++ [part] ∧ ['*', '*'] <:+ part := by
  obtain ⟨front, rfl⟩ := h
  induction front with
  | nil => exact ⟨[], ['*', '*'], rfl, List.suffix_refl _⟩
  | cons c front ih =>
    obtain ⟨parts, part, hsplit, hpart⟩ := ih
    rw [List.cons_append, List.splitOn_cons_eq_if_modifyHead, hsplit]
    split
    · exact ⟨[] :: parts, part, rfl, hpart⟩
    · cases parts with
      | nil => exact ⟨[], c :: part, rfl, hpart.trans (List.suffix_cons _ _)⟩
      | cons first parts => exact ⟨(c :: first) :: parts, part, rfl, hpart⟩

/-- The tokens of a pattern end as those of its last part do. -/
theorem endsInPair_intercalate {parts : List (List Char)} {part : List Char}
    {tss : List (List Token)} (h : List.Forall₂ PartTokens (parts ++ [part]) tss)
    (hpart : ['*', '*'] <:+ part) : EndsInPair ([Token.char '/'].intercalate tss) := by
  induction parts generalizing tss with
  | nil =>
    cases h with
    | cons hts hnil =>
      cases hnil
      rw [List.intercalate_singleton]
      exact hts.endsInPair hpart
  | cons first parts ih =>
    cases h with
    | @cons _ ts _ tss _ hrest =>
      have hne : tss ≠ [] := by
        rintro rfl
        simpa using hrest.length_eq
      rw [List.intercalate_cons_of_ne_nil hne, List.append_assoc]
      exact ((ih hrest).append _).append ts

/-- A pattern whose text ends in two stars has a pair at its end. -/
theorem PatternTokens.endsInPair {pattern : List Char} {ts : List Token}
    (h : PatternTokens pattern ts) (hstars : ['*', '*'] <:+ pattern) : EndsInPair ts := by
  obtain ⟨tss, h, rfl⟩ := h
  obtain ⟨parts, part, hsplit, hpart⟩ := exists_last_part hstars
  rw [hsplit] at h
  exact endsInPair_intercalate h hpart

/-- A pattern whose text ends in two stars matches every continuation, without line feeds, of a path
that it matches. -/
theorem matchesPath_append {pattern path : String} (hstars : ['*', '*'] <:+ pattern.toList)
    (h : matchesPath pattern path = true) {more : String} (hline : '\n' ∉ (path ++ more).toList) :
    matchesPath pattern (path ++ more) = true := by
  obtain ⟨ts, hts⟩ := exists_patternTokens pattern.toList
  rw [← mem_slashed_lineFeed_iff] at hline
  have hpath : '\n' ∉ slashed path := by
    rw [slashed_append] at hline
    exact fun hmem => hline (List.mem_append_left _ hmem)
  rw [matchesPath_iff_cuts hts hpath] at h
  rw [matchesPath_iff_cuts hts hline, slashed_append]
  rw [slashed_append] at hline
  exact (hts.endsInPair hstars).cuts_append h hline

end FlagAudit.Glob
