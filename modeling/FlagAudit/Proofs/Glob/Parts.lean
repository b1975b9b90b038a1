import FlagAudit.Proofs.Glob.Subtree

/-!
# Globs, part by part

A slash in a pattern stands for itself, and a part without a pair of stars stands for texts without
slashes. So if the first part of a pattern has no pair of stars, it accounts for exactly what is
before the first slash of a path (`matchesPath_slash_iff`).
-/

namespace FlagAudit.Glob

/-! ### The tokens of the first part -/

theorem patternTokens_iff_of_part {part : List Char} (hpart : '/' ∉ part) {ts : List Token} :
    PatternTokens part ts ↔ PartTokens part ts := by
  rw [PatternTokens, List.splitOn_eq_singleton hpart]
  constructor
  · rintro ⟨tss, h, rfl⟩
    cases h with
    | cons hts hnil =>
      cases hnil
      rwa [List.intercalate_singleton]
  · intro h
    exact ⟨[ts], .cons h .nil, (List.intercalate_singleton ..).symm⟩

/-- Every pattern has a part. -/
theorem ne_nil_of_parts {pattern : List Char} {tss : List (List Token)}
    (h : List.Forall₂ PartTokens (pattern.splitOn '/') tss) : tss ≠ [] := by
  rintro rfl
  exact List.splitOn_ne_nil '/' pattern (List.forall₂_nil_right_iff.mp h)

/-- The tokens of a pattern are those of its first part, a slash, and those of the rest. -/
theorem patternTokens_slash_iff {first rest : List Char} (hfirst : '/' ∉ first)
    {ts : List Token} :
    PatternTokens (first ++ '/' :: rest) ts ↔
      ∃ us vs, PartTokens first us ∧ PatternTokens rest vs ∧ ts = us ++ .char '/' :: vs := by
  rw [PatternTokens, List.splitOn_append_cons_self_of_not_mem hfirst]
  constructor
  · rintro ⟨tss, h, rfl⟩
    cases h with
    | @cons _ us _ tss hus hrest =>
      refine ⟨us, _, hus, ⟨tss, hrest, rfl⟩, ?_⟩
      rw [List.intercalate_cons_of_ne_nil (ne_nil_of_parts hrest), List.append_assoc, List.singleton_append]
  · rintro ⟨us, _, hus, ⟨tss, hrest, rfl⟩, rfl⟩
    refine ⟨us :: tss, .cons hus hrest, ?_⟩
    rw [List.intercalate_cons_of_ne_nil (ne_nil_of_parts hrest), List.append_assoc, List.singleton_append]

/-! ### Texts within a part -/

/-- A part of a pattern, or a piece of one, without a pair of stars. -/
structure Shallow (part : List Char) : Prop where
  /-- It has no slash. -/
  noSlash : '/' ∉ part
  /-- It has no pair of stars, not even in a group. -/
  noPair : ¬ ['*', '*'] <:+: part

theorem Shallow.of_suffix {part rest : List Char} (h : Shallow part) (hrest : rest <:+ part) :
    Shallow rest :=
  ⟨fun hmem => h.noSlash (hrest.subset hmem), fun hstars => h.noPair (hstars.trans hrest.isInfix)⟩

/-- A token that stands for texts without slashes only. -/
def Token.Within (t : Token) : Prop := ∀ s, t.StandsFor s → '/' ∉ s

theorem mem_of_mem_trim {c : Char} {s : List Char} (h : c ∈ Text.trim s) : c ∈ s := by
  rw [Text.trim, Text.trimStart, List.mem_reverse] at h
  have hmem := List.mem_reverse.mp ((List.dropWhile_sublist _).mem h)
  exact (List.dropWhile_sublist _).mem hmem

/-- An alternative of a group has only characters of its body. -/
theorem mem_of_mem_alternative {c : Char} {body text : List Char}
    (htext : text ∈ (body.splitOn ',').map Text.trim) (hc : c ∈ text) : c ∈ body := by
  obtain ⟨piece, hpiece, rfl⟩ := List.mem_map.mp htext
  have hc := mem_of_mem_trim hc
  have hbody : [','].intercalate (body.splitOn ',') = body := List.intercalate_splitOn ','
  rw [← hbody]
  generalize body.splitOn ',' = pieces at hpiece
  induction pieces with
  | nil => cases hpiece
  | cons first pieces ih =>
    cases pieces with
    | nil => simpa [List.mem_singleton.mp hpiece] using hc
    | cons next pieces =>
      rw [List.intercalate_cons_cons, List.mem_append, List.mem_append]
      rcases List.mem_cons.mp hpiece with rfl | hpiece
      · exact .inl (.inl hc)
      · exact .inr (ih hpiece)

/-- Without a pair of stars, the tokens of a part stand for texts within a part. -/
theorem PartTokens.within {part : List Char} {ts : List Token} (h : PartTokens part ts)
    (hpart : Shallow part) : ∀ t ∈ ts, t.Within := by
  induction h with
  | nil => exact List.forall_mem_nil _
  | group _ _ _ ih =>
    refine List.forall_mem_cons.mpr ⟨fun text htext hslash => hpart.noSlash ?_, ih ?_⟩
    · have hbody := mem_of_mem_alternative htext hslash
      exact List.mem_cons_of_mem _ (List.mem_append_left _ hbody)
    · exact hpart.of_suffix (((List.suffix_cons _ _).trans (List.suffix_append _ _)).trans
        (List.suffix_cons _ _))
  | pair => exact absurd ⟨[], _, rfl⟩ hpart.noPair
  | star _ _ ih =>
    exact List.forall_mem_cons.mpr ⟨fun text htext => htext, ih (hpart.of_suffix (List.suffix_cons _ _))⟩
  | char _ _ _ ih =>
    refine List.forall_mem_cons.mpr ⟨fun text htext hslash => hpart.noSlash ?_,
      ih (hpart.of_suffix (List.suffix_cons _ _))⟩
    rw [show text = _ from htext, List.mem_singleton] at hslash
    exact hslash ▸ List.mem_cons_self

/-- What is cut for such tokens has no slash. -/
theorem slash_not_mem_of_cuts {ts : List Token} (hts : ∀ t ∈ ts, t.Within) {s : List Char}
    (h : Cuts ts s) : '/' ∉ s := by
  induction ts generalizing s with
  | nil =>
    rw [(cuts_nil_iff s).mp h]
    exact List.not_mem_nil
  | cons t ts ih =>
    rw [List.forall_mem_cons] at hts
    obtain ⟨piece, rest, rfl, hpiece, hrest⟩ := (cuts_cons_iff ..).mp h
    rw [List.mem_append, not_or]
    exact ⟨hts.1 piece hpiece, ih hts.2 hrest⟩

/-- A text with a slash is cut at its first slash. -/
theorem cuts_slash_iff {us vs : List Token} (hus : ∀ t ∈ us, t.Within) {front back : List Char}
    (hfront : '/' ∉ front) :
    Cuts (us ++ .char '/' :: vs) (front ++ '/' :: back) ↔ Cuts us front ∧ Cuts vs back := by
  rw [cuts_append_iff]
  constructor
  · rintro ⟨front', behind, heq, hfront', hbehind⟩
    obtain ⟨slash, back', rfl, rfl, hback'⟩ := (cuts_cons_iff ..).mp hbehind
    obtain ⟨rfl, rfl⟩ := eq_of_append_cons hfront (slash_not_mem_of_cuts hus hfront') heq
    exact ⟨hfront', hback'⟩
  · rintro ⟨hfront', hback⟩
    exact ⟨front, '/' :: back, rfl, hfront', (cuts_cons_iff ..).mpr ⟨['/'], back, rfl, rfl, hback⟩⟩

/-! ### The first part of a path -/

/-- The first part of a pattern: what is before its first slash. -/
def firstPart (pattern : String) : String := String.ofList (pattern.toList.takeWhile (· != '/'))

theorem slash_not_mem_firstPart (pattern : String) : '/' ∉ (firstPart pattern).toList := by
  rw [firstPart, String.toList_ofList]
  exact fun hmem => absurd (List.mem_takeWhile_imp hmem) (by decide)

/-- A pattern is its first part, or has a slash and more behind it. -/
theorem firstPart_cases (pattern : String) :
    pattern = firstPart pattern ∨ ∃ rest, pattern = firstPart pattern ++ "/" ++ rest := by
  have hsplit : pattern.toList = (firstPart pattern).toList ++ pattern.toList.dropWhile (· != '/') := by
    rw [firstPart, String.toList_ofList, List.takeWhile_append_dropWhile]
  cases hbehind : pattern.toList.dropWhile (· != '/') with
  | nil =>
    rw [hbehind, List.append_nil] at hsplit
    exact .inl (String.toList_inj.mp hsplit)
  | cons c rest =>
    have hc : c = '/' := by
      have hhead := List.head?_dropWhile_not (· != '/') pattern.toList
      rw [hbehind] at hhead
      simpa using hhead
    refine .inr ⟨String.ofList rest, String.toList_inj.mp ?_⟩
    rw [hsplit, hbehind, hc]
    simp

/-- If the first part of a pattern has no pair of stars, the pattern matches a path with a slash if
its first part matches what is before the slash and the rest matches what is behind it. -/
theorem matchesPath_slash_iff {first rest front back : String} (hfirst : Shallow first.toList)
    (hfront : '/' ∉ slashed front) (hline : '\n' ∉ slashed front) :
    matchesPath (first ++ "/" ++ rest) (front ++ "/" ++ back) = true ↔
      matchesPath first front = true ∧ matchesPath rest back = true := by
  obtain ⟨us, hus⟩ := exists_partTokens first.toList
  obtain ⟨vs, hvs⟩ := exists_patternTokens rest.toList
  have hpattern : PatternTokens (first ++ "/" ++ rest).toList (us ++ .char '/' :: vs) := by
    have hlist : (first ++ "/" ++ rest).toList = first.toList ++ '/' :: rest.toList := by simp
    rw [hlist]
    exact (patternTokens_slash_iff hfirst.noSlash).mpr ⟨us, vs, hus, hvs, rfl⟩
  have hpath : slashed (front ++ "/" ++ back) = slashed front ++ '/' :: slashed back := by
    rw [slashed_append, slashed_append, List.append_assoc]
    rfl
  have hcuts := @cuts_slash_iff us vs (hus.within hfirst) (slashed front)
  rw [matchesPath_iff_of_tokens hpattern, hpath,
    matchesPath_iff_cuts ((patternTokens_iff_of_part hfirst.noSlash).mpr hus) hline,
    matchesPath_iff_of_tokens hvs, hcuts hfront]
  constructor
  · rintro (⟨hthis, hback⟩ | ⟨line, heq, hline⟩)
    · exact ⟨hthis, .inl hback⟩
    · -- The line feed at the end that may be left over is behind the slash.
      rcases List.eq_nil_or_concat (slashed back) with hnil | ⟨line', c, hback⟩
      · rw [hnil] at heq
        simpa using congrArg List.getLast? heq
      · rw [hback, List.concat_eq_append, ← List.cons_append, ← List.append_assoc] at heq
        obtain ⟨rfl, hc⟩ := List.append_inj' heq rfl
        obtain ⟨hthis, hline⟩ := (hcuts hfront).mp hline
        refine ⟨hthis, .inr ⟨line', ?_, hline⟩⟩
        rw [hback, List.concat_eq_append, hc]
  · rintro ⟨hthis, hback | ⟨line, heq, hline⟩⟩
    · exact .inl ⟨hthis, hback⟩
    · refine .inr ⟨slashed front ++ '/' :: line, ?_, (hcuts hfront).mpr ⟨hthis, hline⟩⟩
      rw [heq, List.append_assoc, List.cons_append]

/-- A pattern without a slash or a pair of stars matches no path with a slash. -/
theorem not_matchesPath_of_slash {pattern path : String} (hpart : Shallow pattern.toList)
    (hslash : '/' ∈ slashed path) :
    matchesPath pattern path = false := by
  obtain ⟨ts, hts⟩ := exists_partTokens pattern.toList
  have hwithin := hts.within hpart
  rw [← Bool.not_eq_true, matchesPath_iff_of_tokens ((patternTokens_iff_of_part hpart.noSlash).mpr hts)]
  rintro (hcuts | ⟨line, heq, hcuts⟩)
  · exact slash_not_mem_of_cuts hwithin hcuts hslash
  · rw [heq, List.mem_append, List.mem_singleton] at hslash
    rcases hslash with hslash | hslash
    · exact slash_not_mem_of_cuts hwithin hcuts hslash
    · revert hslash
      decide

end FlagAudit.Glob
