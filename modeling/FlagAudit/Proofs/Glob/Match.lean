import FlagAudit.Proofs.Glob.Reading
import FlagAudit.Proofs.Regex.Run

/-!
# What a glob matches

The search for the expression of a glob backtracks, with wildcards that can overlap in any way. It
finds a way through a path just if the path can be cut into pieces for the tokens of the pattern
(`matchesPath_iff`), a line feed at the end aside.
-/

namespace FlagAudit.Glob

open Regex (Accepts Continue)

variable {k : Continue} {p : List Char → Prop}

/-- A set of one character, or of all others. -/
theorem oneOf_accepts_eq (c : Char) (negated : Bool) (x : Char) :
    (Regex.Single.oneOf [.code c.toNat] negated ⟨false, false⟩).accepts x =
      ((x == c) != negated) := by
  have : (x.toNat == c.toNat) = (x == c) := by
    rw [Bool.eq_iff_iff, beq_iff_eq, beq_iff_eq, Char.toNat_inj]
  simp [Regex.Single.accepts, Regex.SetItem.accepts, Regex.SetItem.has, this]

theorem notSlash_accepts_iff (x : Char) : notSlash.accepts x = true ↔ x ≠ '/' := by
  rw [notSlash, oneOf_accepts_eq]
  simp

theorem accepts_char (c : Char) (h : Accepts k p) :
    Accepts (fun s => Regex.run (Regex.literal {} c.toNat) s k)
      fun s => ∃ rest, s = c :: rest ∧ p rest := by
  refine (Regex.accepts_single _ h).congr fun s => ?_
  have hc : ∀ x, (Regex.Single.oneOf [.code c.toNat] false ⟨false, false⟩).accepts x = true ↔ x = c :=
    fun x => by simp [oneOf_accepts_eq]
  constructor
  · rintro ⟨x, rest, rfl, hx, hp⟩
    exact ⟨rest, by rw [(hc x).mp hx], hp⟩
  · rintro ⟨rest, rfl, hp⟩
    exact ⟨c, rest, rfl, (hc c).mpr rfl, hp⟩

/-- A text that stands for itself. -/
theorem accepts_text (text : List Char) (h : Accepts k p) :
    Accepts (fun s => Regex.run (textRegex text) s k) fun s => ∃ rest, s = text ++ rest ∧ p rest := by
  induction text with
  | nil => exact h.congr fun s => by simp
  | cons c text ih =>
    have : (fun s => Regex.run (textRegex (c :: text)) s k) =
        fun s => Regex.run (Regex.literal {} c.toNat) s fun t => Regex.run (textRegex text) t k :=
      funext fun s => Regex.run_concatAll_cons _ _ s k
    rw [this]
    refine (accepts_char c ih).congr fun s => ?_
    constructor
    · rintro ⟨_, rfl, rest, rfl, hp⟩
      exact ⟨rest, rfl, hp⟩
    · rintro ⟨rest, rfl, hp⟩
      exact ⟨text ++ rest, rfl, rest, rfl, hp⟩

/-- A token is gone through by way of a text that it stands for. -/
theorem accepts_token {t : Token} (ht : t.Sound) (h : Accepts k p) :
    Accepts (fun s => Regex.run t.part.body s k)
      fun s => ∃ piece rest, s = piece ++ rest ∧ t.StandsFor piece ∧ p rest := by
  cases t with
  | char c =>
    exact (accepts_char c h).congr fun s => by simp [Token.StandsFor]
  | oneOf texts =>
    refine (Regex.accepts_eitherAll ht fun text _ => accepts_text text h).congr fun s => ?_
    constructor
    · rintro ⟨text, htext, rest, rfl, hp⟩
      exact ⟨text, rest, rfl, htext, hp⟩
    · rintro ⟨text, rest, rfl, htext, hp⟩
      exact ⟨text, htext, rest, rfl, hp⟩
  | star =>
    refine (Regex.accepts_repeated notSlash h).congr fun s => ?_
    simp only [notSlash_accepts_iff, Token.StandsFor, List.forall_mem_ne']
  | pair =>
    refine (Regex.accepts_repeated (.any false) h).congr fun s => ?_
    simp only [Regex.Single.accepts, Bool.false_or, bne_iff_ne, Token.StandsFor,
      List.forall_mem_ne']

/-- Some tokens are gone through by way of a text that can be cut into pieces for them. -/
theorem accepts_tokens {ts : List Token} (hts : ∀ t ∈ ts, t.Sound) {rs : List Regex}
    (h : Accepts (fun s => Regex.run (.concatAll rs) s k) p) :
    Accepts (fun s => Regex.run (.concatAll (ts.map (·.part.body) ++ rs)) s k)
      fun s => ∃ piece rest, s = piece ++ rest ∧ Cuts ts piece ∧ p rest := by
  induction ts with
  | nil => exact h.congr fun s => by simp [cuts_nil_iff]
  | cons t ts ih =>
    rw [List.forall_mem_cons] at hts
    have : (fun s => Regex.run (.concatAll ((t :: ts).map (·.part.body) ++ rs)) s k) =
        fun s => Regex.run t.part.body s fun u =>
          Regex.run (.concatAll (ts.map (·.part.body) ++ rs)) u k :=
      funext fun s => Regex.run_concatAll_cons _ _ s k
    rw [this]
    refine (accepts_token hts.1 (ih hts.2)).congr fun s => ?_
    constructor
    · rintro ⟨first, _, rfl, hfirst, piece, rest, rfl, hpiece, hp⟩
      exact ⟨first ++ piece, rest, by simp, (cuts_cons_iff ..).mpr ⟨_, _, rfl, hfirst, hpiece⟩, hp⟩
    · rintro ⟨_, rest, rfl, hcuts, hp⟩
      obtain ⟨first, piece, rfl, hfirst, hpiece⟩ := (cuts_cons_iff ..).mp hcuts
      exact ⟨first, piece ++ rest, by simp, hfirst, piece, rest, rfl, hpiece, hp⟩

/-- The end of the text, or a line feed that ends it. -/
theorem accepts_lastLineEnd (h : ∀ s, (k s).isSome = true) :
    Accepts (fun s => Regex.run (.concatAll [.anchor .lastLineEnd]) s k)
      fun s => s = [] ∨ s = ['\n'] := by
  intro s
  simp only [Regex.concatAll, Regex.run_anchor, Regex.Anchor.holds, Bool.or_eq_true, List.isEmpty_iff,
    beq_iff_eq]
  split <;> simp_all

/-- The pattern of some tokens occurs at the start of a text that can be cut into pieces for them,
up to a line feed at its end. -/
theorem matchesStart_iff {ts : List Token} (hts : ∀ t ∈ ts, t.Sound) (s : List Char) :
    (Pattern.mk (regexOf ts) 0).matchesStart s = true ↔
      Cuts ts s ∨ ∃ line, s = line ++ ['\n'] ∧ Cuts ts line := by
  have htokens := accepts_tokens hts (accepts_lastLineEnd (k := some) fun _ => rfl) ⟨.start s, []⟩
  have hstart : (Pattern.mk (regexOf ts) 0).matchesStart s = true ↔
      ∃ piece rest, s = piece ++ rest ∧ Cuts ts piece ∧ (rest = [] ∨ rest = ['\n']) := by
    rw [Pattern.matchesStart_eq, regexOf, Regex.run_concatAll_cons]
    exact htokens
  rw [hstart]
  constructor
  · rintro ⟨piece, rest, rfl, hcuts, rfl | rfl⟩
    · exact .inl (by simpa using hcuts)
    · exact .inr ⟨piece, rfl, hcuts⟩
  · rintro (hcuts | ⟨line, rfl, hcuts⟩)
    · exact ⟨s, [], by simp, hcuts, .inl rfl⟩
    · exact ⟨line, _, rfl, hcuts, .inr rfl⟩

theorem slashed_eq_map (path : String) :
    slashed path = path.toList.map fun c => if c = '\\' then '/' else c := by
  simp only [slashed, beq_iff_eq]

/-- A pattern always compiles, and it matches a path if the path, with slashes for backslashes and
perhaps without a line feed at its end, can be cut into pieces for the tokens of the pattern, of
which there is just one list. -/
theorem matchesPath_iff (pattern : String) :
    (∃ p, compile pattern = .ok p) ∧
      ∃ ts, PatternTokens pattern.toList ts ∧
        (∀ ts', PatternTokens pattern.toList ts' → ts' = ts) ∧
        ∀ path : String,
          let s := path.toList.map fun c => if c = '\\' then '/' else c
          matchesPath pattern path = true ↔ Cuts ts s ∨ ∃ line, s = line ++ ['\n'] ∧ Cuts ts line := by
  obtain ⟨ts, hts⟩ := exists_patternTokens pattern.toList
  have hcompile : compile pattern = .ok ⟨regexOf ts, 0⟩ := read_expression hts
  refine ⟨⟨_, hcompile⟩, ts, hts, fun ts' h => h.unique hts, fun path => ?_⟩
  rw [← slashed_eq_map, matchesPath, hcompile]
  exact matchesStart_iff hts.sound _

end FlagAudit.Glob
