import Mathlib.Data.List.Basic
import FlagAudit.Text.Newlines
import FlagAudit.Text.Utf8

/-!
# Files written with other line endings

`Ending.encode` writes every line feed of a file as another line ending. The bytes are those of a text
exactly if they have been so before, and the text is then the one with its line feeds written in the same way
(`decode_encode`), since no byte of a longer sequence can be taken for a line feed. Reading turns the endings
into line feeds again, so nothing is left of them (`unifyNewlines_write`).
-/

namespace FlagAudit.Text

/-- How lines can end, other than by a line feed alone. -/
inductive Ending where
  /-- A carriage return and a line feed. -/
  | returnFeed
  /-- A carriage return. -/
  | carriageReturn
  deriving DecidableEq, Repr

namespace Ending

/-- The bytes of an ending. -/
def bytes : Ending → List UInt8
  | .returnFeed => [13, 10]
  | .carriageReturn => [13]

/-- The characters of an ending. -/
def characters : Ending → List Char
  | .returnFeed => ['\r', '\n']
  | .carriageReturn => ['\r']

/-- The bytes of a file with an ending for every line feed. -/
def encode (e : Ending) (content : List UInt8) : List UInt8 :=
  content.flatMap fun b => if b = 10 then e.bytes else [b]

/-- A text with an ending for every line feed. -/
def write (e : Ending) (s : List Char) : List Char :=
  s.flatMap fun c => if c = '\n' then e.characters else [c]

variable {e : Ending} {b : UInt8} {c : Char}

theorem encode_cons (h : b ≠ 10) (content : List UInt8) : e.encode (b :: content) = b :: e.encode content := by
  rw [encode, List.flatMap_cons, if_neg h]
  rfl

theorem write_cons (h : c ≠ '\n') (s : List Char) : e.write (c :: s) = c :: e.write s := by
  rw [write, List.flatMap_cons, if_neg h]
  rfl

/-- Where there has been a line feed, there is a carriage return now. -/
theorem exists_encode_feed (e : Ending) (content : List UInt8) :
    ∃ rest, e.encode (10 :: content) = 13 :: rest := by
  cases e with
  | returnFeed => exact ⟨10 :: encode .returnFeed content, rfl⟩
  | carriageReturn => exact ⟨encode .carriageReturn content, rfl⟩

end Ending

/-! ### Decoding -/

namespace Utf8

/-- What the bytes behind a lead byte have to be, if it is one. -/
def tailTests (a : UInt8) : Option (List (UInt8 → Bool)) :=
  if a ≤ 0x7F then some []
  else if a < 0xC2 then none
  else if a ≤ 0xDF then some [isTail]
  else if a ≤ 0xEF then some [fitsThree a, isTail]
  else if a ≤ 0xF4 then some [fitsFour a, isTail, isTail]
  else none

/-- As many bytes as there are tests, if each of them passes its test, and what is behind them. -/
def take? : List (UInt8 → Bool) → List UInt8 → Option (List UInt8 × List UInt8)
  | [], content => some ([], content)
  | _ :: _, [] => none
  | test :: tests, b :: content =>
    if test b then (take? tests content).map fun taken => (b :: taken.1, taken.2) else none

/-- The code point of a lead byte and the bytes behind it. -/
def codePoint (a : UInt8) : List UInt8 → Nat
  | [] => a.toNat
  | [b] => (a.toNat - 0xC0) * 64 + tailBits b
  | [b, c] => ((a.toNat - 0xE0) * 64 + tailBits b) * 64 + tailBits c
  | b :: c :: d :: _ => (((a.toNat - 0xF0) * 64 + tailBits b) * 64 + tailBits c) * 64 + tailBits d

/-- A character is decoded, and then what is behind it. -/
theorem decode_cons (a : UInt8) (content : List UInt8) :
    decode (a :: content) = (tailTests a).bind fun tests => (take? tests content).bind fun taken =>
      (decode taken.2).map (Char.ofNat (codePoint a taken.1) :: ·) := by
  rw [decode.eq_def, tailTests]
  dsimp only
  split
  · simp [take?, codePoint]
  split
  · rfl
  split
  · rcases content with _ | ⟨b, content⟩
    · rfl
    · cases hb : isTail b <;> simp [take?, codePoint, hb]
  split
  · rcases content with _ | ⟨b, _ | ⟨c, content⟩⟩
    · rfl
    · simp [take?]
    · cases hb : fitsThree a b <;> cases hc : isTail c <;> simp [take?, codePoint, hb, hc]
  split
  · rcases content with _ | ⟨b, _ | ⟨c, _ | ⟨d, content⟩⟩⟩
    · rfl
    · simp [take?]
    · simp [take?]
    · cases hb : fitsFour a b <;> cases hc : isTail c <;> cases hd : isTail d <;>
        simp [take?, codePoint, hb, hc, hd]
  · rfl

/-- No byte of a line ending goes on with a sequence. -/
theorem not_tail_of_mem_tailTests {a : UInt8} {tests : List (UInt8 → Bool)} (h : tailTests a = some tests) :
    ∀ test ∈ tests, test 10 = false ∧ test 13 = false := by
  have htail : isTail 10 = false ∧ isTail 13 = false := by decide
  have hthree : fitsThree a 10 = false ∧ fitsThree a 13 = false := by
    constructor <;> rw [fitsThree] <;> split <;> (try split) <;> decide
  have hfour : fitsFour a 10 = false ∧ fitsFour a 13 = false := by
    constructor <;> rw [fitsFour] <;> split <;> (try split) <;> decide
  rw [tailTests] at h
  repeat' split at h
  all_goals cases h
  all_goals simp [htail, hthree, hfour]

/-- The same bytes are taken before line endings are written and afterwards. -/
theorem take?_encode (e : Ending) {tests : List (UInt8 → Bool)}
    (h : ∀ test ∈ tests, test 10 = false ∧ test 13 = false) (content : List UInt8) :
    take? tests (e.encode content) = (take? tests content).map fun taken => (taken.1, e.encode taken.2) := by
  induction tests generalizing content with
  | nil => rw [take?, take?, Option.map_some]
  | cons test tests ih =>
    rw [List.forall_mem_cons] at h
    cases content with
    | nil => rfl
    | cons b content =>
      by_cases hb : b = 10
      · obtain ⟨rest, hrest⟩ := Ending.exists_encode_feed e content
        rw [hb, hrest, take?, take?, h.1.1, h.1.2]
        rfl
      · rw [Ending.encode_cons hb, take?, take?, ih h.2]
        split
        · rw [Option.map_map, Option.map_map]
          rfl
        · rfl

theorem length_of_take? {tests : List (UInt8 → Bool)} {content : List UInt8}
    {taken : List UInt8 × List UInt8} (h : take? tests content = some taken) :
    taken.2.length ≤ content.length := by
  induction tests generalizing content taken with
  | nil =>
    cases content <;> cases h <;> exact Nat.le_refl _
  | cons test tests ih =>
    cases content with
    | nil => cases h
    | cons b content =>
      rw [take?] at h
      split at h
      · obtain ⟨below, hbelow, rfl⟩ := Option.map_eq_some_iff.mp h
        have hle := ih hbelow
        exact Nat.le_succ_of_le hle
      · cases h

/-- The least code point of a sequence is above those of single bytes. -/
theorem le_codePoint_two {a b : UInt8} (ha : ¬ a < 0xC2) : 128 ≤ codePoint a [b] := by
  rw [UInt8.lt_iff_toNat_lt] at ha
  have hlead : ((0xC2 : UInt8).toNat : Nat) = 0xC2 := rfl
  rw [codePoint]
  omega

theorem le_codePoint_three {a b c : UInt8} (ha : ¬ a ≤ 0xDF) (hb : fitsThree a b = true) :
    128 ≤ codePoint a [b, c] := by
  rw [UInt8.le_iff_toNat_le] at ha
  have hlead : ((0xDF : UInt8).toNat : Nat) = 0xDF := rfl
  dsimp only [codePoint, tailBits]
  by_cases he0 : a = 0xE0
  · simp only [fitsThree, he0, beq_self_eq_true, if_true, Bool.and_eq_true, decide_eq_true_eq,
      UInt8.le_iff_toNat_le] at hb
    have hleast : ((0xA0 : UInt8).toNat : Nat) = 0xA0 := rfl
    omega
  · have hne := mt UInt8.toNat_inj.mp he0
    have hcase : ((0xE0 : UInt8).toNat : Nat) = 0xE0 := rfl
    omega

theorem le_codePoint_four {a b c d : UInt8} (ha : ¬ a ≤ 0xEF) (hb : fitsFour a b = true) :
    128 ≤ codePoint a [b, c, d] := by
  rw [UInt8.le_iff_toNat_le] at ha
  have hlead : ((0xEF : UInt8).toNat : Nat) = 0xEF := rfl
  dsimp only [codePoint, tailBits]
  by_cases hf0 : a = 0xF0
  · simp only [fitsFour, hf0, beq_self_eq_true, if_true, Bool.and_eq_true, decide_eq_true_eq,
      UInt8.le_iff_toNat_le] at hb
    have hleast : ((0x90 : UInt8).toNat : Nat) = 0x90 := rfl
    omega
  · have hne := mt UInt8.toNat_inj.mp hf0
    have hcase : ((0xF0 : UInt8).toNat : Nat) = 0xF0 := rfl
    omega

theorem take?_nil_eq_some_iff {content : List UInt8} {taken : List UInt8 × List UInt8} :
    take? [] content = some taken ↔ taken = ([], content) := by
  rw [take?, Option.some.injEq, eq_comm]

theorem take?_cons_eq_some_iff {test : UInt8 → Bool} {tests : List (UInt8 → Bool)} {content : List UInt8}
    {taken : List UInt8 × List UInt8} :
    take? (test :: tests) content = some taken ↔
      ∃ b rest, content = b :: rest ∧ test b = true ∧
        ∃ below, take? tests rest = some below ∧ (b :: below.1, below.2) = taken := by
  cases content with
  | nil => simp [take?]
  | cons b rest =>
    rw [take?]
    constructor
    · intro h
      split at h
      · next hb => exact ⟨b, rest, rfl, hb, Option.map_eq_some_iff.mp h⟩
      · cases h
    · rintro ⟨_, _, ⟨⟩, hb, hbelow⟩
      rw [if_pos hb, Option.map_eq_some_iff]
      exact hbelow

/-- No sequence is read as a line feed but the byte that is one. -/
theorem codePoint_ne {a : UInt8} {tests : List (UInt8 → Bool)} {content : List UInt8}
    {taken : List UInt8 × List UInt8} (ha : a ≠ 10) (htests : tailTests a = some tests)
    (htaken : take? tests content = some taken) : codePoint a taken.1 ≠ 10 := by
  have hlarge : ∀ n, 128 ≤ n → n ≠ 10 := fun n hn => by omega
  rw [tailTests] at htests
  split at htests
  · cases htests
    rw [take?_nil_eq_some_iff.mp htaken]
    exact fun h => ha (UInt8.toNat_inj.mp h)
  split at htests
  · cases htests
  split at htests
  · next hone _ =>
    cases htests
    simp only [take?_cons_eq_some_iff, take?_nil_eq_some_iff] at htaken
    obtain ⟨b, _, rfl, -, _, rfl, rfl⟩ := htaken
    exact hlarge _ (le_codePoint_two hone)
  split at htests
  · next htwo _ =>
    cases htests
    simp only [take?_cons_eq_some_iff, take?_nil_eq_some_iff] at htaken
    obtain ⟨b, _, rfl, hb, _, ⟨c, _, rfl, -, _, rfl, rfl⟩, rfl⟩ := htaken
    exact hlarge _ (le_codePoint_three htwo hb)
  split at htests
  · next hthree _ =>
    cases htests
    simp only [take?_cons_eq_some_iff, take?_nil_eq_some_iff] at htaken
    obtain ⟨b, _, rfl, hb, _, ⟨c, _, rfl, -, _, ⟨d, _, rfl, -, _, rfl, rfl⟩, rfl⟩, rfl⟩ := htaken
    exact hlarge _ (le_codePoint_four hthree hb)
  · cases htests

theorem ofNat_ne_feed {n : Nat} (h : n ≠ 10) : Char.ofNat n ≠ '\n' := by
  intro heq
  by_cases hvalid : n.isValidChar
  · rw [Char.ofNat, dif_pos hvalid] at heq
    exact h (congrArg Char.toNat heq)
  · rw [Char.ofNat, dif_neg hvalid] at heq
    cases heq

theorem decode_single {a : UInt8} (h : a ≤ 0x7F) (content : List UInt8) :
    decode (a :: content) = (decode content).map (Char.ofNat a.toNat :: ·) := by
  rw [decode_cons, tailTests, if_pos h, Option.bind_some, take?, Option.bind_some]
  rfl

theorem decode_encode_feed (e : Ending) (content : List UInt8) :
    decode (e.encode (10 :: content)) =
      (decode (e.encode content)).map fun s => e.characters ++ s := by
  cases e with
  | returnFeed =>
    have hbytes : Ending.encode .returnFeed (10 :: content) = 13 :: 10 :: Ending.encode .returnFeed content := rfl
    rw [hbytes, decode_single (by decide), decode_single (by decide), Option.map_map]
    rfl
  | carriageReturn =>
    have hbytes : Ending.encode .carriageReturn (10 :: content) =
      13 :: Ending.encode .carriageReturn content := rfl
    rw [hbytes, decode_single (by decide)]
    rfl

/-- A file with other line endings is decoded to the text with such endings. -/
theorem decode_encode (e : Ending) (content : List UInt8) :
    decode (e.encode content) = (decode content).map e.write := by
  induction hn : content.length using Nat.strongRecOn generalizing content with
  | ind n ih =>
    cases content with
    | nil => rfl
    | cons a content =>
      by_cases ha : a = 10
      · have hlt : content.length < n := hn ▸ Nat.lt_succ_self _
        rw [ha, decode_encode_feed, ih _ hlt _ rfl, decode_single (by decide), Option.map_map, Option.map_map]
        rfl
      · rw [Ending.encode_cons ha, decode_cons, decode_cons]
        cases htests : tailTests a with
        | none => rfl
        | some tests =>
          rw [Option.bind_some, Option.bind_some, take?_encode e (not_tail_of_mem_tailTests htests)]
          cases htaken : take? tests content with
          | none => rfl
          | some taken =>
            have hlt : taken.2.length < n := hn ▸ Nat.lt_succ_of_le (length_of_take? htaken)
            have hchar := ofNat_ne_feed (codePoint_ne ha htests htaken)
            rw [Option.map_some, Option.bind_some, Option.bind_some, ih _ hlt _ rfl, Option.map_map,
              Option.map_map]
            exact congrArg (fun f => Option.map f _) (funext fun s => (Ending.write_cons hchar s).symm)

end Utf8

/-! ### Reading -/

theorem feed_notMem_write (s : List Char) : '\n' ∉ Ending.write .carriageReturn s := by
  induction s with
  | nil => exact List.not_mem_nil
  | cons c s ih =>
    by_cases hc : c = '\n'
    · rw [hc]
      exact List.not_mem_cons_of_ne_of_not_mem (by decide) ih
    · rw [Ending.write_cons hc]
      exact List.not_mem_cons_of_ne_of_not_mem (Ne.symm hc) ih

/-- A carriage return is read as a line feed, if no line feed is behind it. -/
theorem unifyNewlines_return {s : List Char} (h : '\n' ∉ s) :
    unifyNewlines ('\r' :: s) = '\n' :: unifyNewlines s := by
  cases s with
  | nil => rfl
  | cons c s =>
    rw [List.mem_cons, not_or] at h
    rw [unifyNewlines]
    rintro rest ⟨⟩
    exact h.1 rfl

theorem unifyNewlines_cons {c : Char} (h : c ≠ '\r') (s : List Char) :
    unifyNewlines (c :: s) = c :: unifyNewlines s := by
  rw [unifyNewlines]
  · exact fun _ heq => absurd heq h
  · exact h

/-- Reading takes line endings back, if there have been none with a carriage return before. -/
theorem unifyNewlines_write (e : Ending) {s : List Char} (h : '\r' ∉ s) : unifyNewlines (e.write s) = s := by
  induction s with
  | nil => rfl
  | cons c s ih =>
    rw [List.mem_cons, not_or] at h
    by_cases hc : c = '\n'
    · cases e with
      | returnFeed =>
        have hwrite : Ending.write .returnFeed (c :: s) = '\r' :: '\n' :: Ending.write .returnFeed s := by
          rw [hc]
          rfl
        rw [hwrite, unifyNewlines, ih h.2, hc]
      | carriageReturn =>
        have hwrite : Ending.write .carriageReturn (c :: s) = '\r' :: Ending.write .carriageReturn s := by
          rw [hc]
          rfl
        rw [hwrite, unifyNewlines_return (feed_notMem_write s), ih h.2, hc]
    · rw [Ending.write_cons hc, unifyNewlines_cons (Ne.symm h.1), ih h.2]

end FlagAudit.Text
