import Mathlib.Data.List.Basic
import FlagAudit.Text.Position

/-!
# Lines and columns tell offsets apart

Two offsets in the same line have the same start of the line before them, so their columns differ.
-/

namespace FlagAudit.Text

theorem lastLineStart_le (s : List Char) : lastLineStart s ≤ s.length := Nat.sub_le _ _

/-- The last line starts where it did before, as long as no line feed is added. -/
theorem lastLineStart_append {s added : List Char} (h : '\n' ∉ added) :
    lastLineStart (s ++ added) = lastLineStart s := by
  have hall : ∀ c ∈ added.reverse, (c != '\n') = true := by
    intro c hc
    rw [bne_iff_ne]
    rintro rfl
    exact h (List.mem_reverse.mp hc)
  rw [lastLineStart, lastLineStart, List.reverse_append, List.takeWhile_append_of_pos hall,
    List.length_append, List.length_append, List.length_reverse]
  omega

/-- Behind a line feed, the last line starts where it does in what is behind it. -/
theorem lastLineStart_append_lineFeed (s added : List Char) :
    lastLineStart (s ++ '\n' :: added) = s.length + 1 + lastLineStart added := by
  have hnone : ('\n' :: s.reverse).takeWhile (· != '\n') = [] := rfl
  have hlast : (added.reverse ++ '\n' :: s.reverse).takeWhile (· != '\n') =
      added.reverse.takeWhile (· != '\n') := by
    rw [List.takeWhile_append, hnone, List.append_nil]
    split
    · next hall => exact ((List.takeWhile_prefix _).eq_of_length hall).symm
    · rfl
  have hle : (added.reverse.takeWhile (· != '\n')).length ≤ added.length := by
    rw [← @List.length_reverse _ added]
    exact (List.takeWhile_prefix _).length_le
  rw [lastLineStart, lastLineStart, List.reverse_append, List.reverse_cons, List.append_assoc,
    List.singleton_append, hlast, List.length_append, List.length_cons]
  omega

/-- In one line, the columns grow with the offset. -/
theorem Position.ofOffset_lt {text : List Char} {i j : Nat} (hij : i < j) (hj : j ≤ text.length) :
    (ofOffset text i).line < (ofOffset text j).line ∨
      (ofOffset text i).line = (ofOffset text j).line ∧
        (ofOffset text i).column < (ofOffset text j).column := by
  have hsplit : text.take j = text.take i ++ (text.drop i).take (j - i) := by
    rw [← List.take_add, Nat.add_sub_cancel' (Nat.le_of_lt hij)]
  simp only [ofOffset]
  rw [hsplit, List.count_append]
  by_cases hfeed : '\n' ∈ (text.drop i).take (j - i)
  · have hcount := List.count_pos_iff.mpr hfeed
    exact .inl (by omega)
  · have hstart := lastLineStart_le (text.take i)
    rw [List.length_take] at hstart
    rw [lastLineStart_append hfeed, List.count_eq_zero.mpr hfeed]
    exact .inr ⟨rfl, by omega⟩

/-- Lines and columns are reported as integers, which tells no fewer places apart. -/
theorem Position.eq_of_reported {p q : Position} (hline : (p.line : Int) = q.line)
    (hcolumn : (p.column : Int) = q.column) : p = q := by
  cases p
  cases q
  rw [Position.mk.injEq]
  exact ⟨Int.ofNat.inj hline, Int.ofNat.inj hcolumn⟩

/-- Different offsets in a text have different lines or columns. -/
theorem Position.ofOffset_injective {text : List Char} {i j : Nat} (hi : i ≤ text.length)
    (hj : j ≤ text.length) (h : ofOffset text i = ofOffset text j) : i = j := by
  rcases Nat.lt_trichotomy i j with hlt | heq | hlt
  · have hne := ofOffset_lt hlt hj
    rw [h] at hne
    omega
  · exact heq
  · have hne := ofOffset_lt hlt hi
    rw [h] at hne
    omega

end FlagAudit.Text
