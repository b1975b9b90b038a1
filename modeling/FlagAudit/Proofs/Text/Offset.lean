import Mathlib.Algebra.GroupWithZero.Nat
import Mathlib.Data.Prod.Lex
import Mathlib.Order.Interval.Set.Defs
import Mathlib.Order.Monotone.Basic
import FlagAudit.Proofs.Text.Lines
import FlagAudit.Proofs.Text.Position

/-!
# Lines and columns stand for offsets

The places of a text are told by its lines: a place lies in one of them, at one of its characters or
behind the last one, where its line feed is or the text ends (`Position.Within`). Its offset is what the
lines above it hold, each with its line feed, and what lies before it in its own line
(`Position.offset`). Each offset of a text has a place of its own, the offset can be told again from it,
and the order of offsets is the order of places, first by line and then by column
(`Position.ofOffset_exact`).
-/

namespace FlagAudit.Text

namespace Position

/-- The place is one of a text with these lines. -/
structure Within (lines : List (List Char)) (p : Position) : Prop where
  /-- Lines are counted from one. -/
  one_le_line : 1 ≤ p.line
  /-- There are as many lines. -/
  line_le : p.line ≤ lines.length
  /-- Columns are counted from one. -/
  one_le_column : 1 ≤ p.column
  /-- The line has as many characters, or the place is right behind it. -/
  column_le : p.column ≤ lines[p.line - 1].length + 1

/-- How many characters there are before a place of a text with these lines. -/
def offset (lines : List (List Char)) (p : Position) : Nat :=
  ((lines.take (p.line - 1)).map fun line => line.length + 1).sum + (p.column - 1)

/-- A place as what it is compared by. -/
def key (p : Position) : Nat ×ₗ Nat := toLex (p.line, p.column)

/-- Where a place comes to be when one more line is put above the text. -/
def below (p : Position) : Position := ⟨p.line + 1, p.column⟩

variable {line rest text : List Char} {lines : List (List Char)} {p : Position} {i j : Nat}

/-! ### The first line, and the lines below it -/

/-- The places of a text are those in its first line and those in the lines below it. -/
theorem within_cons_iff : p.Within (line :: lines) ↔
    (∃ i ≤ line.length, p = ⟨1, i + 1⟩) ∨ ∃ q : Position, q.Within lines ∧ p = q.below := by
  constructor
  · obtain ⟨n, column⟩ := p
    rintro ⟨hone, hline, hcolumn, hlast⟩
    match n, hone with
    | 1, _ =>
      exact .inl ⟨column - 1, Nat.sub_le_of_le_add hlast, by rw [Nat.sub_add_cancel hcolumn]⟩
    | n + 2, _ =>
      exact .inr ⟨⟨n + 1, column⟩,
        ⟨Nat.le_add_left 1 n, Nat.le_of_succ_le_succ hline, hcolumn, hlast⟩, rfl⟩
  · rintro (⟨i, hi, rfl⟩ | ⟨⟨n, column⟩, ⟨hone, hline, hcolumn, hlast⟩, rfl⟩)
    · exact ⟨Nat.le_refl 1, Nat.le_add_left 1 lines.length, Nat.le_add_left 1 i, Nat.succ_le_succ hi⟩
    · match n, hone with
      | n + 1, _ => exact ⟨Nat.le_add_left 1 (n + 1), Nat.succ_le_succ hline, hcolumn, hlast⟩

theorem offset_first (line : List Char) (lines : List (List Char)) (i : Nat) :
    offset (line :: lines) ⟨1, i + 1⟩ = i := Nat.zero_add i

theorem offset_below (line : List Char) (h : 1 ≤ p.line) :
    p.below.offset (line :: lines) = line.length + 1 + p.offset lines := by
  obtain ⟨n, column⟩ := p
  match n, h with
  | n + 1, _ =>
    simp only [below, offset, Nat.add_sub_cancel, List.take_succ_cons, List.map_cons, List.sum_cons]
    omega

theorem ofOffset_first (hline : '\n' ∉ line) (hi : i ≤ line.length) (h : line <+: text) :
    ofOffset text i = ⟨1, i + 1⟩ := by
  obtain ⟨rest, rfl⟩ := h
  have hseen : '\n' ∉ line.take i := fun hmem => hline (List.mem_of_mem_take hmem)
  have hstart : lastLineStart (line.take i) = 0 := lastLineStart_append (s := []) hseen
  simp only [ofOffset]
  rw [List.take_append_of_le_length hi, List.count_eq_zero.mpr hseen, hstart]
  rfl

theorem ofOffset_below (hline : '\n' ∉ line) (rest : List Char) (i : Nat) :
    ofOffset (line ++ '\n' :: rest) (line.length + 1 + i) = (ofOffset rest i).below := by
  have hstart := lastLineStart_le (rest.take i)
  simp only [ofOffset, below]
  rw [Nat.add_assoc, List.take_length_add_append, Nat.add_comm 1 i, List.take_succ_cons,
    List.count_append, List.count_eq_zero.mpr hline, List.count_cons_self,
    lastLineStart_append_lineFeed, mk.injEq]
  omega

/-! ### Offsets and places -/

/-- Every offset has a place within the lines. -/
theorem within_ofOffset (hi : i ≤ text.length) : (ofOffset text i).Within (text.splitOn '\n') := by
  induction text using splitInduction '\n' generalizing i with
  | last line hline =>
    rw [List.splitOn_eq_singleton hline, within_cons_iff]
    exact .inl ⟨i, hi, ofOffset_first hline hi List.prefix_rfl⟩
  | append line rest hline ih =>
    rw [List.splitOn_append_cons_self_of_not_mem hline, within_cons_iff]
    -- The offset of the line feed still belongs to the line.
    rcases Nat.lt_or_ge line.length i with hlt | hle
    · obtain ⟨k, rfl⟩ := Nat.exists_eq_add_of_le hlt
      have hk : k ≤ rest.length := by
        rw [List.length_append, List.length_cons] at hi
        omega
      exact .inr ⟨ofOffset rest k, ih hk, ofOffset_below hline rest k⟩
    · exact .inl ⟨i, hle, ofOffset_first hline hle (List.prefix_append _ _)⟩

/-- A place within the lines is the place of its offset. -/
theorem ofOffset_offset (h : p.Within (text.splitOn '\n')) :
    p.offset (text.splitOn '\n') ≤ text.length ∧
      ofOffset text (p.offset (text.splitOn '\n')) = p := by
  induction text using splitInduction '\n' generalizing p with
  | last line hline =>
    rw [List.splitOn_eq_singleton hline] at h ⊢
    rcases within_cons_iff.mp h with ⟨i, hi, rfl⟩ | ⟨q, hq, -⟩
    · rw [offset_first]
      exact ⟨hi, ofOffset_first hline hi List.prefix_rfl⟩
    · exact absurd (hq.one_le_line.trans hq.line_le) (Nat.not_succ_le_zero 0)
  | append line rest hline ih =>
    rw [List.splitOn_append_cons_self_of_not_mem hline] at h ⊢
    rw [List.length_append, List.length_cons]
    rcases within_cons_iff.mp h with ⟨i, hi, rfl⟩ | ⟨q, hq, rfl⟩
    · rw [offset_first]
      exact ⟨hi.trans (Nat.le_add_right _ _), ofOffset_first hline hi (List.prefix_append _ _)⟩
    · obtain ⟨hle, hplace⟩ := ih hq
      rw [offset_below line hq.one_le_line, ofOffset_below hline, hplace]
      exact ⟨by omega, rfl⟩

/-- An offset is told again from its place, which no other offset has. -/
theorem offset_ofOffset (hi : i ≤ text.length) :
    (ofOffset text i).offset (text.splitOn '\n') = i :=
  have ⟨hle, hplace⟩ := ofOffset_offset (within_ofOffset hi)
  ofOffset_injective hle hi hplace

/-- Places come in the order of their offsets. -/
theorem strictMonoOn_key (text : List Char) :
    StrictMonoOn (fun i => (ofOffset text i).key) (Set.Iic text.length) :=
  fun _ _ _ hj hij => Prod.Lex.toLex_lt_toLex.mpr (ofOffset_lt hij hj)

/-- The place of an offset is within the lines of the text, and the lines above it and what is before it
in its own line make up the offset. So different offsets have different places, and the order of
offsets is that of lines and, within a line, of columns. -/
theorem ofOffset_exact (hi : i ≤ text.length) (hj : j ≤ text.length) :
    (ofOffset text i).Within (text.splitOn '\n') ∧
      (ofOffset text i).offset (text.splitOn '\n') = i ∧
      (ofOffset text i = ofOffset text j → i = j) ∧
      (i < j ↔ (ofOffset text i).key < (ofOffset text j).key) := by
  have horder := (strictMonoOn_key text).lt_iff_lt hi hj
  exact ⟨within_ofOffset hi, offset_ofOffset hi, ofOffset_injective hi hj, horder.symm⟩

/-- A text with an empty line in it and a line feed at its end. -/
def withEmptyLines : List Char := ['a', 'b', '\n', '\n', 'c', '\n']

/-- The line feed of the empty line and the end of the text both have the first column of their lines. -/
theorem ofOffset_exact_emptyLines :
    3 ≤ withEmptyLines.length ∧ 6 ≤ withEmptyLines.length ∧
      ofOffset withEmptyLines 3 = ⟨2, 1⟩ ∧ ofOffset withEmptyLines 6 = ⟨4, 1⟩ ∧
      Within [['a', 'b'], [], ['c'], []] ⟨2, 1⟩ ∧
      offset [['a', 'b'], [], ['c'], []] ⟨2, 1⟩ = 3 ∧
      ((⟨2, 1⟩ : Position) = ⟨4, 1⟩ → 3 = 6) ∧ (3 < 6 ↔ key ⟨2, 1⟩ < key ⟨4, 1⟩) :=
  ⟨by decide, by decide, rfl, rfl,
    @ofOffset_exact withEmptyLines 3 6 (by decide) (by decide)⟩

end Position

end FlagAudit.Text
