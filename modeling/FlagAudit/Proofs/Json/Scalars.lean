import Mathlib.Algebra.Group.Int.Defs
import FlagAudit.Json.Printer
import FlagAudit.Json.Reader
import FlagAudit.Proofs.Text.Decimal

/-!
# Texts and numbers in JSON, written and read

A text is read back whatever characters it holds (`readText_escaped`): each of them is escaped in a way that
the reader undoes, and what follows is left alone. A whole number is read back unless it has too many digits
(`readMagnitude_digits`).
-/

namespace FlagAudit.Json

open Text (digitCount)

variable {s rest : List Char} {limit : Nat}

/-! ### Texts -/

/-- A text whose code of a character cannot be read cannot be read. -/
theorem readText_of_no_unit {a b c d : Char} (h : hexUnit? a b c d = none) :
    readText ('\\' :: 'u' :: a :: b :: c :: d :: s) = none := by
  by_cases hpair : ∃ e f g h r, s = '\\' :: 'u' :: e :: f :: g :: h :: r
  · obtain ⟨e, f, g, i, r, rfl⟩ := hpair
    rw [readText]
    simp [h]
  · rw [readText]
    · simp [h]
    · exact fun e f g i r hs => hpair ⟨e, f, g, i, r, hs⟩

/-- The code of a character below the space is read, whatever follows that can be read. -/
theorem readText_unit {a b c d : Char} {n : Nat} {t : List Char} (hunit : hexUnit? a b c d = some n)
    (hn : n < 32) (hs : readText s = some (t, rest)) :
    readText ('\\' :: 'u' :: a :: b :: c :: d :: s) = some (Char.ofNat n :: t, rest) := by
  have hchar : charOfUnit n = Char.ofNat n := if_neg (by omega)
  have hhigh : ¬ 0xD800 ≤ n := by omega
  -- The reader looks whether another code follows, with which this one could be a pair.
  by_cases hpair : ∃ e f g h r, s = '\\' :: 'u' :: e :: f :: g :: h :: r
  · obtain ⟨e, f, g, h, r, rfl⟩ := hpair
    rw [readText]
    cases hlow : hexUnit? e f g h with
    | none =>
      rw [readText_of_no_unit hlow] at hs
      cases hs
    | some low => simp [hunit, hhigh, hs, hchar]
  · rw [readText]
    · simp [hunit, hs, hchar]
    · exact fun e f g h r hs => hpair ⟨e, f, g, h, r, hs⟩

/-- A short escape is read. -/
theorem readText_shortEscape {e c : Char} {t : List Char} (he : shortEscape? e = some c) 
    (hs : readText s = some (t, rest)) : readText ('\\' :: e :: s) = some (c :: t, rest) := by
  have hne : e ≠ 'u' := by
    rintro rfl
    cases he
  rw [readText]
  · simp [he, hs]
  · exact fun _ _ _ _ _ _ _ _ _ heq => absurd heq hne
  · exact fun _ _ _ _ _ heq => absurd heq hne

/-- A character that needs no escape is read. -/
theorem readText_plain {c : Char} {t : List Char} (hquote : c ≠ '"') (hbackslash : c ≠ '\\')
    (hc : ¬ c.toNat < 32) (hs : readText s = some (t, rest)) :
    readText (c :: s) = some (c :: t, rest) := by
  rw [readText]
  · simp [hc, hs]
  all_goals simp [hquote, hbackslash]

/-- The code of a character below the space has four digits, which denote it. -/
theorem exists_hex {n : Nat} (h : n < 32) :
    ∃ a b c d, Text.Quoted.hex 4 n = [a, b, c, d] ∧ hexUnit? a b c d = some n := by
  have hall : ∀ n < 32, (Text.Quoted.hex 4 n).length = 4 ∧
      hexUnit? (Text.Quoted.hex 4 n)[0]! (Text.Quoted.hex 4 n)[1]! (Text.Quoted.hex 4 n)[2]!
        (Text.Quoted.hex 4 n)[3]! = some n := by
    decide
  obtain ⟨hlength, hunit⟩ := hall n h
  obtain ⟨a, b, c, d, hhex⟩ : ∃ a b c d, Text.Quoted.hex 4 n = [a, b, c, d] := by
    match Text.Quoted.hex 4 n, hlength with
    | [a, b, c, d], _ => exact ⟨a, b, c, d, rfl⟩
  rw [hhex] at hunit
  exact ⟨a, b, c, d, hhex, hunit⟩

/-- What one character is written as is read as this character. -/
theorem readText_escape (c : Char) {t : List Char} (hs : readText s = some (t, rest)) :
    readText (escape c ++ s) = some (c :: t, rest) := by
  rw [escape]
  split
  · next h =>
    rw [Bool.or_eq_true, beq_iff_eq, beq_iff_eq] at h
    rcases h with rfl | rfl <;> exact readText_shortEscape rfl hs
  · next h =>
    rw [Bool.or_eq_true, beq_iff_eq, beq_iff_eq, not_or] at h
    split
    · next hc => exact readText_shortEscape (by rw [beq_iff_eq.mp hc]; rfl) hs
    split
    · next hc => exact readText_shortEscape (by rw [beq_iff_eq.mp hc]; rfl) hs
    split
    · next hc => exact readText_shortEscape (by rw [beq_iff_eq.mp hc]; rfl) hs
    split
    · next hc => exact readText_shortEscape (by rw [beq_iff_eq.mp hc]; rfl) hs
    split
    · next hc => exact readText_shortEscape (by rw [beq_iff_eq.mp hc]; rfl) hs
    split
    · next hc =>
      obtain ⟨x, y, z, w, hhex, hunit⟩ := exists_hex hc
      rw [hhex, ← Char.ofNat_toNat c]
      exact readText_unit hunit hc hs
    · next hc => exact readText_plain h.1 h.2 hc hs

/-- A text is read back, and what follows its closing quote is left. -/
theorem readText_escaped (s rest : List Char) :
    readText (s.flatMap escape ++ '"' :: rest) = some (s, rest) := by
  induction s with
  | nil =>
    rw [List.flatMap_nil, List.nil_append, readText]
  | cons c s ih =>
    rw [List.flatMap_cons, List.append_assoc]
    exact readText_escape c ih

/-! ### Whole numbers -/

/-- What may stand behind a value. -/
def Closes (rest : List Char) : Prop := ∀ c ∈ rest.head?, c = ',' ∨ c = ']' ∨ c = '\x7d' ∨ c = '\n'

theorem Closes.not_isDigit (h : Closes rest) : ∀ c ∈ rest.head?, c.isDigit = false := by
  intro c hc
  rcases h c hc with rfl | rfl | rfl | rfl <;> rfl

/-- No fraction and no exponent follows. -/
theorem Closes.whole (h : Closes rest) : readFraction rest = none ∧ readExponent rest = none := by
  cases rest with
  | nil => exact ⟨rfl, rfl⟩
  | cons c rest => rcases h c rfl with rfl | rfl | rfl | rfl <;> exact ⟨rfl, rfl⟩

/-- A power of ten has one digit more than its exponent says. -/
theorem lt_digitCount_pow {k : Nat} (h : 0 < k) : k < digitCount (10 ^ k) := by
  rw [← Nat.not_le, digitCount, Int.natAbs_pow, Nat.length_toDigits_le_iff (by decide) h]
  exact Nat.lt_irrefl _

/-- What comes of reading when some whole numbers are in what is read: the first that has too many digits
decides. -/
def keeping {α : Type} (limit : Nat) (numbers : List Int) (a : α) : Except ReadError α :=
  match numbers.find? fun n => limit < digitCount n with
  | none => .ok a
  | some n => .error (.tooManyDigits (digitCount n))

theorem keeping_singleton {α : Type} (limit : Nat) (n : Int) (a : α) :
    keeping limit [n] a = if limit < digitCount n then .error (.tooManyDigits (digitCount n)) else .ok a := by
  by_cases h : limit < digitCount n <;> simp [keeping, h]

/-- The digits of a number are read, unless they are too many. -/
theorem readMagnitude_digits (limit : Nat) (negative : Bool) (n : Nat) (h : Closes rest) :
    readMagnitude limit negative (Nat.toDigits 10 n ++ rest) =
      keeping limit [if negative then -n else n] (.int (if negative then -n else n), rest) := by
  obtain ⟨hfraction, hexponent⟩ := h.whole
  have hcount : digitCount (if negative then -n else n) = (Nat.toDigits 10 n).length := by
    cases negative <;> simp [digitCount]
  rw [keeping_singleton, hcount]
  rcases Nat.eq_zero_or_pos n with rfl | hpos
  · rw [Nat.toDigits_zero, List.singleton_append, readMagnitude]
    simp only [pure_bind, hfraction, Option.getD_none, hexponent]
    split <;> cases negative <;> rfl
  · have hspan := Text.spanDigits_append (fun c => Text.isDigit_of_mem_toDigits (n := n)) h.not_isDigit
    have hvalue := Text.digitsValue_toDigits n
    have hhead := Text.head?_toDigits_ne_zero hpos
    cases hds : Nat.toDigits 10 n with
    | nil => exact absurd hds Nat.toDigits_ne_nil
    | cons d ds =>
      rw [hds] at hspan hvalue hhead
      rw [readMagnitude, hspan]
      · simp only [pure_bind, hfraction, Option.getD_none, hexponent, hvalue]
        split <;> rfl
      · intro rest' heq
        exact hhead (congrArg List.head? heq)

/-- The two numbers with a fraction that are written are read. -/
theorem readMagnitude_float (limit : Nat) (zero : Bool) (h : Closes rest) :
    readMagnitude limit false ((if zero then ['0', '.', '0'] else ['1', '.', '0']) ++ rest) =
      .ok (.float zero, rest) := by
  have hzero : Text.spanDigits ('0' :: rest) = (['0'], rest) :=
    @Text.spanDigits_append ['0'] rest (List.forall_mem_singleton.mpr rfl) h.not_isDigit
  have hone : Text.spanDigits ('1' :: '.' :: '0' :: rest) = (['1'], '.' :: '0' :: rest) :=
    @Text.spanDigits_append ['1'] _ (List.forall_mem_singleton.mpr rfl) (by rintro c ⟨⟩; rfl)
  have hrounds : Text.roundsToZero (Text.digitsValue ['1', '0']) (-1) = false := by decide +kernel
  cases zero
  · simp [readMagnitude, hone, readFraction, hzero, h.whole.2, hrounds]
    rfl
  · simp [readMagnitude, readFraction, hzero, h.whole.2]
    rfl

end FlagAudit.Json
