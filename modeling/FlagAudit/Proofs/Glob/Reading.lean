import FlagAudit.Proofs.Glob.Expression
import FlagAudit.Proofs.Regex.Reading

/-!
# Reading the expression of a glob

The expression of a glob is well formed, whatever the pattern: a special character never comes
without its backslash, a group is closed where it has to be, and a star of the expression always has
something to repeat. What is read is the regular expressions of the pattern's tokens, one after the
other, between the start and the end of the text (`read_expression`).
-/

namespace FlagAudit.Glob

open Regex (Part Draft Reading readSequence readFurther readAlternatives readGroup literal)

/-- The regular expression of a text that stands for itself. -/
def textRegex (text : List Char) : Regex := .concatAll (text.map fun c => literal {} c.toNat)

/-- What a star can stand for, one character at a time. -/
def notSlash : Regex.Single := .oneOf [.code '/'.toNat] true ⟨false, false⟩

/-- The part of a sequence that the expression of a token is read as. -/
def Token.part : Token → Part
  | .char c => ⟨.other, literal {} c.toNat⟩
  | .oneOf texts => ⟨.other, .eitherAll (texts.map textRegex)⟩
  | .star => ⟨.repetition, .repeated (.single notSlash) 0 none .most⟩
  | .pair => ⟨.repetition, .repeated (.single (.any false)) 0 none .most⟩

variable {s : List Char}

/-! ### Texts that stand for themselves -/

/-- A special character behind a backslash is that character. -/
theorem run_escape {c : Char} (hc : isSpecial c = true) (d : Draft) :
    (Regex.escape {} c).run d = .ok (literal {} c.toNat, d) := by
  simp only [isSpecial, List.contains_iff_mem, List.mem_cons, List.not_mem_nil, or_false] at hc
  rcases hc with rfl | rfl | rfl | rfl | rfl | rfl | rfl | rfl | rfl | rfl | rfl | rfl | rfl | rfl |
    rfl | rfl | rfl | rfl | rfl | rfl | rfl | rfl | rfl | rfl <;> rfl

theorem ne_backslash_of_not_special {c : Char} (hc : isSpecial c = false) : c ≠ '\\' := by
  rintro rfl
  exact absurd hc (by decide)

/-- A character that stands for itself is read as itself, with or without a backslash. -/
theorem run_readSequence_char (hs : s ≠ ['\\']) (c : Char) (fuel : Nat) (first : Bool)
    (parts : List Part) (b : Bool) :
    (readSequence (fuel + 1) first {} parts).run (.at (literally [c] ++ s) b) =
      (readSequence fuel first {} ((Token.char c).part :: parts)).run (.at s b) := by
  rw [readSequence]
  cases hc : isSpecial c with
  | true =>
    simp [literally, hc, Regex.run_peek_escaped, Regex.run_take_escaped hs, run_escape hc]
    rfl
  | false =>
    have hb := ne_backslash_of_not_special hc
    simp only [isSpecial, List.contains_eq_mem, decide_eq_false_iff_not, List.mem_cons, not_or]
      at hc
    simp [literally, isSpecial, hc, Regex.run_peek_plain hb, Regex.run_take_plain hb hs]
    rfl

theorem literally_append_ne (text : List Char) (hs : s ≠ ['\\']) : literally text ++ s ≠ ['\\'] := by
  cases text with
  | nil => exact hs
  | cons c text =>
    rw [literally_cons]
    cases hc : isSpecial c with
    | true => simp [literally, hc]
    | false => simp [literally, hc, ne_backslash_of_not_special hc]

/-- A text that stands for itself is read character by character. -/
theorem run_readSequence_literally (hs : s ≠ ['\\']) (text : List Char) (fuel : Nat) (first : Bool)
    (parts : List Part) (b : Bool) :
    (readSequence (fuel + text.length) first {} parts).run (.at (literally text ++ s) b) =
      (readSequence fuel first {} ((text.map fun c => (Token.char c).part).reverse ++ parts)).run
        (.at s b) := by
  induction text generalizing parts with
  | nil => rfl
  | cons c text ih =>
    rw [literally_cons, List.append_assoc, List.length_cons, ← Nat.add_assoc,
      run_readSequence_char (literally_append_ne text hs), ih]
    simp

/-- A sequence ends before a bar and before a closing parenthesis. -/
theorem run_readSequence_stop {c : Char} (hc : c = '|' ∨ c = ')') (fuel : Nat) (first : Bool)
    (parts : List Part) (b : Bool) :
    (readSequence (fuel + 1) first {} parts).run (.at (c :: s) b) =
      .ok (Regex.sequenceOf parts, .at (c :: s) b) := by
  rw [readSequence]
  rcases hc with rfl | rfl <;> simp [Regex.run_peek_plain]

/-- A text that stands for itself, as one of the alternatives of a group. -/
theorem run_readSequence_alternative {c : Char} (hc : c = '|' ∨ c = ')') (text : List Char)
    (fuel : Nat) (hfuel : text.length < fuel) (b : Bool) :
    (readSequence fuel false {} []).run (.at (literally text ++ c :: s) b) =
      .ok (textRegex text, .at (c :: s) b) := by
  obtain ⟨n, rfl⟩ : ∃ n, fuel = n + 1 + text.length := ⟨fuel - text.length - 1, by omega⟩
  have hcs : c :: s ≠ ['\\'] := by rcases hc with rfl | rfl <;> simp
  rw [run_readSequence_literally hcs, run_readSequence_stop hc]
  simp [Regex.sequenceOf, textRegex, Token.part, Function.comp_def]

/-! ### Groups -/

/-- Some alternatives behind the first, each with its bar. -/
def furtherAlternatives (texts : List (List Char)) : List Char :=
  texts.flatMap fun text => '|' :: literally text

theorem intercalate_alternatives (text : List Char) (texts : List (List Char)) :
    ['|'].intercalate ((text :: texts).map literally) =
      literally text ++ furtherAlternatives texts := by
  induction texts generalizing text with
  | nil => simp [furtherAlternatives]
  | cons t texts ih =>
    rw [List.map_cons, List.map_cons, List.intercalate_cons_cons, ← List.map_cons, ih]
    simp [furtherAlternatives]

/-- Behind an alternative stands a bar or the closing parenthesis. -/
theorem furtherAlternatives_append (texts : List (List Char)) (s : List Char) :
    ∃ c s', (c = '|' ∨ c = ')') ∧ furtherAlternatives texts ++ ')' :: s = c :: s' := by
  cases texts with
  | nil => exact ⟨')', s, .inr rfl, rfl⟩
  | cons text texts => exact ⟨'|', _, .inl rfl, rfl⟩

theorem length_le_literally (text : List Char) : text.length ≤ (literally text).length := by
  induction text with
  | nil => simp
  | cons c text ih =>
    rw [literally_cons]
    cases hc : isSpecial c <;> simp [literally, hc] at ih ⊢ <;> omega

/-- The alternatives behind the first are read one after the other, up to the parenthesis. -/
theorem run_readFurther (texts : List (List Char)) (fuel : Nat)
    (hfuel : (furtherAlternatives texts).length < fuel) (b : Bool) :
    (readFurther fuel false {}).run (.at (furtherAlternatives texts ++ ')' :: s) b) =
      .ok (texts.map textRegex, .at (')' :: s) b) := by
  induction texts generalizing fuel with
  | nil =>
    obtain ⟨n, rfl⟩ : ∃ n, fuel = n + 1 := ⟨fuel - 1, by omega⟩
    rw [readFurther]
    simp [furtherAlternatives]
    rfl
  | cons text texts ih =>
    obtain ⟨n, rfl⟩ : ∃ n, fuel = n + 1 := ⟨fuel - 1, by omega⟩
    have hlen : (literally text).length + (furtherAlternatives texts).length < n := by
      simp [furtherAlternatives] at hfuel ⊢
      omega
    obtain ⟨c, s', hc, hs'⟩ := furtherAlternatives_append texts s
    have htext := run_readSequence_alternative (s := s') hc text n
      (Nat.lt_of_le_of_lt (length_le_literally text) (by omega)) b
    rw [← hs'] at htext
    have hrest := ih n (by omega)
    have hne : literally text ++ (furtherAlternatives texts ++ ')' :: s) ≠ ['\\'] :=
      literally_append_ne text (by rcases hc with rfl | rfl <;> simp [hs'])
    have hsplit : furtherAlternatives (text :: texts) ++ ')' :: s =
        '|' :: (literally text ++ (furtherAlternatives texts ++ ')' :: s)) := by
      simp [furtherAlternatives]
    have hbar := Regex.run_accept_self (c := '|') (by decide) hne b
    rw [readFurther, hsplit]
    simp [hbar, htext, hrest]

/-- A group that only groups is opened. -/
theorem run_opening (hs : s ≠ ['\\']) (b : Bool) :
    Regex.opening.run (.at ('?' :: ':' :: s) b) = .ok (.plain {} {}, .at s b) := by
  have hmark := Regex.run_accept_self (c := '?') (s := ':' :: s) (by decide) (by simp) b
  have hcolon := Regex.run_take_plain (c := ':') (by decide) hs b
  simp [Regex.opening, hmark, hcolon]

/-- A group is read up to its closing parenthesis. -/
theorem run_readGroup (hs : s ≠ ['\\']) (text : List Char) (texts : List (List Char)) (fuel : Nat)
    (hfuel : (literally text).length + (furtherAlternatives texts).length < fuel) (b : Bool) :
    (readGroup (fuel + 2) {} (.plain {} {})).run
        (.at (literally text ++ (furtherAlternatives texts ++ ')' :: s)) b) =
      .ok (.eitherAll ((text :: texts).map textRegex), .at s b) := by
  obtain ⟨c, s', hc, hs'⟩ := furtherAlternatives_append texts s
  have htext := run_readSequence_alternative (s := s') hc text fuel
    (Nat.lt_of_le_of_lt (length_le_literally text) (by omega)) b
  rw [← hs'] at htext
  have hfurther := run_readFurther (s := s) texts fuel (by omega) b
  have hclose := Regex.run_accept_self (c := ')') (by decide) hs b
  have hscoped : Regex.Flags.scoped {} {} {} = {} := rfl
  rw [readGroup]
  simp only [hscoped]
  rw [readAlternatives]
  simp [htext, hfurther, Regex.close, hclose]

/-- A group is read as one part. -/
theorem run_readSequence_group (hs : s ≠ ['\\']) (text : List Char) (texts : List (List Char))
    (fuel : Nat) (first : Bool) (parts : List Part) (b : Bool) :
    ∃ fuel', fuel ≤ fuel' ∧
      (readSequence (fuel + (Token.oneOf (text :: texts)).expression.length) first {} parts).run
          (.at ((Token.oneOf (text :: texts)).expression ++ s) b) =
        (readSequence fuel' first {} ((Token.oneOf (text :: texts)).part :: parts)).run
          (.at s b) := by
  have hexpr : (Token.oneOf (text :: texts)).expression ++ s =
      '(' :: '?' :: ':' :: (literally text ++ (furtherAlternatives texts ++ ')' :: s)) := by
    simp [Token.expression, -List.map_cons, intercalate_alternatives]
  have hlen : (Token.oneOf (text :: texts)).expression.length =
      (literally text).length + (furtherAlternatives texts).length + 4 := by
    simp [Token.expression, -List.map_cons, intercalate_alternatives]
    omega
  set n := fuel + ((literally text).length + (furtherAlternatives texts).length) + 1 with hn
  refine ⟨n + 2, by omega, ?_⟩
  have hgroup := run_readGroup hs text texts n (by omega) b
  have hopening := run_opening (s := literally text ++ (furtherAlternatives texts ++ ')' :: s))
    (literally_append_ne _ (by cases texts <;> simp [furtherAlternatives])) b
  rw [hexpr, hlen, show fuel + ((literally text).length + (furtherAlternatives texts).length + 4) =
    n + 2 + 1 by omega, readSequence]
  simp [Regex.run_peek_plain, Regex.run_take_plain, hopening, hgroup]
  rfl

/-! ### Stars -/

/-- What may follow a star of an expression, so that it repeats as often as possible. -/
def Quiet (s : List Char) : Prop := s ≠ ['\\'] ∧ s.head? ≠ some '?' ∧ s.head? ≠ some '+'

/-- A star repeats the part before it. -/
theorem run_repeatLast (hs : Quiet s) (r : Regex) (parts : List Part) (b : Bool) :
    (Regex.repeatLast 0 none (⟨.other, r⟩ :: parts)).run (.at s b) =
      .ok (⟨.repetition, .repeated r 0 none .most⟩ :: parts, .at s true) := by
  have hgreed : Regex.greed.run (.at s b) = .ok (.most, .at s b) := by
    simp [Regex.greed, Regex.run_accept_of_ne hs.2.1, Regex.run_accept_of_ne hs.2.2]
  simp [Regex.repeatLast, hgreed]
  rfl

theorem run_readSequence_pair (hs : Quiet s) (fuel : Nat) (first : Bool) (parts : List Part)
    (b : Bool) :
    (readSequence (fuel + 2) first {} parts).run (.at (anyRun ++ s) b) =
      (readSequence fuel first {} (Token.pair.part :: parts)).run (.at s true) := by
  have hrepeat := run_repeatLast hs (.single (.any false)) parts b
  rw [readSequence]
  simp [anyRun, Regex.run_peek_plain, Regex.run_take_plain]
  rw [readSequence]
  simp [Regex.run_peek_plain, Regex.run_take_plain, Part.of, hs.1, hrepeat]
  rfl

/-- The set of all characters but the slash. -/
theorem run_bracketSet (b : Bool) :
    (Regex.bracketSet {}).run (.at ('^' :: '/' :: ']' :: '*' :: s) b) =
      .ok (notSlash, .at ('*' :: s) b) := by
  have hfuel : Regex.remaining.run (.at ('/' :: ']' :: '*' :: s) b) =
    .ok (s.length + 2 + 2, .at ('/' :: ']' :: '*' :: s) b) := rfl
  simp [Regex.bracketSet, Regex.run_accept_self, hfuel]
  rw [Regex.setItems]
  simp [Regex.run_take_plain, Regex.setMember]
  rw [Regex.setItems]
  rfl

theorem run_readSequence_star (hs : Quiet s) (fuel : Nat) (first : Bool) (parts : List Part)
    (b : Bool) :
    (readSequence (fuel + 2) first {} parts).run (.at (runWithinPart ++ s) b) =
      (readSequence fuel first {} (Token.star.part :: parts)).run (.at s true) := by
  have hrepeat := run_repeatLast hs (.single notSlash) parts b
  rw [readSequence]
  simp [runWithinPart, Regex.run_peek_plain, Regex.run_take_plain, run_bracketSet]
  rw [readSequence]
  simp [Regex.run_peek_plain, Regex.run_take_plain, Part.of, hs.1, hrepeat]
  rfl

/-! ### Tokens -/

/-- A token that can come of a pattern: a group has alternatives. -/
def Token.Sound : Token → Prop
  | .oneOf texts => texts ≠ []
  | _ => True

theorem PartTokens.sound {part : List Char} {ts : List Token} (h : PartTokens part ts) :
    ∀ t ∈ ts, t.Sound := by
  induction h with
  | nil => simp
  | group _ _ _ ih => exact List.forall_mem_cons.mpr ⟨by simp [Token.Sound], ih⟩
  | pair _ ih => exact List.forall_mem_cons.mpr ⟨trivial, ih⟩
  | star _ _ ih => exact List.forall_mem_cons.mpr ⟨trivial, ih⟩
  | char _ _ _ ih => exact List.forall_mem_cons.mpr ⟨trivial, ih⟩

theorem PatternTokens.sound {pattern : List Char} {ts : List Token} (h : PatternTokens pattern ts) :
    ∀ t ∈ ts, t.Sound := by
  obtain ⟨tss, h, rfl⟩ := h
  generalize pattern.splitOn '/' = parts at h
  induction h with
  | nil => simp
  | cons hpart hparts ih =>
    cases hparts with
    | nil => simpa using hpart.sound
    | cons _ _ =>
      intro t ht
      rw [List.intercalate_cons_cons, List.mem_append, List.mem_append, List.mem_singleton] at ht
      rcases ht with (ht | rfl) | ht
      · exact hpart.sound t ht
      · trivial
      · exact ih t ht

/-- No expression of a token begins with a mark that changes the repetition before it. -/
theorem quiet_token_append (t : Token) (hs : Quiet s) : Quiet (t.expression ++ s) := by
  cases t with
  | char c =>
    refine ⟨literally_append_ne [c] hs.1, ?_⟩
    cases hc : isSpecial c with
    | true => simp [Token.expression, literally, hc]
    | false =>
      have h : c ≠ '?' ∧ c ≠ '+' := by
        constructor <;> (rintro rfl; exact absurd hc (by decide))
      simp [Token.expression, literally, hc, h]
  | oneOf _ | star | pair => simp [Quiet, Token.expression, runWithinPart, anyRun]

theorem quiet_tokens_append (ts : List Token) (hs : Quiet s) :
    Quiet (ts.flatMap Token.expression ++ s) := by
  induction ts with
  | nil => exact hs
  | cons t ts ih =>
    rw [List.flatMap_cons, List.append_assoc]
    exact quiet_token_append t ih

/-- The expression of a token is read as one part. -/
theorem run_readSequence_token (hs : Quiet s) {t : Token} (ht : t.Sound) (fuel : Nat)
    (first : Bool) (parts : List Part) (b : Bool) :
    ∃ fuel' b', fuel ≤ fuel' ∧
      (readSequence (fuel + t.expression.length) first {} parts).run (.at (t.expression ++ s) b) =
        (readSequence fuel' first {} (t.part :: parts)).run (.at s b') := by
  match t, ht with
  | .char c, _ =>
    obtain ⟨n, hn⟩ : ∃ n, (literally [c]).length = n + 1 := by
      cases hc : isSpecial c <;> simp [literally, hc]
    refine ⟨fuel + n, b, by omega, ?_⟩
    rw [Token.expression, hn, ← Nat.add_assoc, run_readSequence_char hs.1]
  | .oneOf (text :: texts), _ =>
    obtain ⟨fuel', hfuel, h⟩ := run_readSequence_group hs.1 text texts fuel first parts b
    exact ⟨fuel', b, hfuel, h⟩
  | .star, _ => exact ⟨fuel + 3, true, by omega, run_readSequence_star hs (fuel + 3) first parts b⟩
  | .pair, _ => exact ⟨fuel, true, le_rfl, run_readSequence_pair hs fuel first parts b⟩

/-- The expressions of some tokens are read as their parts, one after the other. -/
theorem run_readSequence_tokens (hs : Quiet s) {ts : List Token} (hts : ∀ t ∈ ts, t.Sound)
    (fuel : Nat) (first : Bool) (parts : List Part) (b : Bool) :
    ∃ fuel' b', fuel ≤ fuel' ∧
      (readSequence (fuel + (ts.flatMap Token.expression).length) first {} parts).run
          (.at (ts.flatMap Token.expression ++ s) b) =
        (readSequence fuel' first {} ((ts.map Token.part).reverse ++ parts)).run (.at s b') := by
  induction ts generalizing fuel parts b with
  | nil => exact ⟨fuel, b, le_rfl, rfl⟩
  | cons t ts ih =>
    rw [List.forall_mem_cons] at hts
    obtain ⟨n, c, hn, ht⟩ := run_readSequence_token (quiet_tokens_append ts hs) hts.1
      (fuel + (ts.flatMap Token.expression).length) first parts b
    obtain ⟨m, rfl⟩ : ∃ m, n = m + (ts.flatMap Token.expression).length :=
      ⟨n - (ts.flatMap Token.expression).length, by omega⟩
    obtain ⟨fuel', b', hfuel, h⟩ := ih hts.2 m (t.part :: parts) c
    refine ⟨fuel', b', by omega, ?_⟩
    rw [List.flatMap_cons, List.append_assoc, List.length_append, Nat.add_comm t.expression.length,
      ← Nat.add_assoc, ht, h]
    simp

/-! ### Whole patterns -/

/-- The regular expression of some tokens that have to account for the whole text. -/
def regexOf (ts : List Token) : Regex :=
  .concatAll (.anchor .textStart :: (ts.map (·.part.body) ++ [.anchor .lastLineEnd]))

/-- The sequence that the expression of a glob is. -/
theorem run_readSequence_expression {ts : List Token} (hts : ∀ t ∈ ts, t.Sound) (fuel : Nat)
    (hfuel : (ts.flatMap Token.expression).length + 2 < fuel) :
    ∃ b, (readSequence fuel true {} []).run
        (.at ('^' :: (ts.flatMap Token.expression ++ ['$'])) false) =
      .ok (regexOf ts, .at [] b) := by
  have hquiet : Quiet ['$'] := by simp [Quiet]
  have hrest := (quiet_tokens_append ts hquiet).1
  obtain ⟨n, rfl⟩ : ∃ n, fuel = n + 2 + (ts.flatMap Token.expression).length + 1 :=
    ⟨fuel - (ts.flatMap Token.expression).length - 3, by omega⟩
  obtain ⟨fuel', b, hle, htokens⟩ := run_readSequence_tokens hquiet hts (n + 2) true
    [.of (.anchor .textStart)] false
  obtain ⟨m, rfl⟩ : ∃ m, fuel' = m + 2 := ⟨fuel' - 2, by omega⟩
  refine ⟨b, ?_⟩
  generalize ts.flatMap Token.expression = e at hrest htokens ⊢
  rw [readSequence]
  simp [Regex.run_peek_plain, Regex.run_take_plain, hrest, htokens]
  rw [readSequence]
  simp [Regex.run_peek_plain, Regex.run_take_plain]
  rw [readSequence]
  simp [Regex.run_peek_nil, Regex.sequenceOf, regexOf, Part.of, Function.comp_def]

/-- The expression of a pattern is well formed, and it is read as the regular expressions of the
pattern's tokens. -/
theorem read_expression {pattern : List Char} {ts : List Token} (h : PatternTokens pattern ts) :
    Regex.read .none (expression pattern) = .ok ⟨regexOf ts, 0⟩ := by
  obtain ⟨b, hsequence⟩ := run_readSequence_expression h.sound
    (4 * (expression pattern).length + 3) (by rw [expression_eq h]; simp; omega)
  have hfurther : (readFurther (4 * (expression pattern).length + 3) true {}).run (.at [] b) =
      .ok ([], .at [] b) := by
    rw [readFurther]
    rfl
  have halternatives : (readAlternatives (4 * (expression pattern).length + 4) true {}).run
      (.at (expression pattern) false) = .ok (regexOf ts, .at [] b) := by
    rw [readAlternatives]
    rw [← expression_eq h] at hsequence
    simp [hsequence, hfurther, Regex.eitherAll]
  have hinput : Regex.Input.ofChars (expression pattern) = .ok (.of (expression pattern)) :=
    Regex.Input.ofChars_eq (by simp [expression])
  rw [Regex.read, Regex.readWith, hinput]
  simp only [Regex.ok_bind]
  rw [show Draft.mk .none (Regex.Input.of (expression pattern)) {} [] [] none 0 false false =
    .at (expression pattern) false from rfl, halternatives]
  rfl

end FlagAudit.Glob
