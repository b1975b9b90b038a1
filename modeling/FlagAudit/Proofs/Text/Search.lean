import Mathlib.Data.List.Basic
import FlagAudit.Text.Search

/-!
# What a search finds

A search tries one place after the other and goes on behind each hit. What it finds can be told from
what is still *due* at each cursor: a hit takes the first of what is due and leaves the rest due
behind it, and where there is no hit nothing that is due gets lost by moving on.
-/

namespace FlagAudit.Text

namespace Cursor

/-- The cursor stands in a text, and its offset counts the characters before it. -/
structure Within (s : List Char) (c : Cursor) : Prop where
  /-- The text. -/
  text : c.text = s
  /-- The offset. -/
  offset : c.offset = c.before.length

variable {s : List Char} {c : Cursor}

theorem within_start (s : List Char) : (start s).Within s := ⟨text_start s, rfl⟩

theorem Within.next (h : c.Within s) : c.next.Within s := by
  refine ⟨(text_next c).trans h.text, ?_⟩
  obtain ⟨offset, before, after⟩ := c
  have hoffset := h.offset
  cases after with
  | nil => exact hoffset
  | cons x rest => exact congrArg (· + 1) hoffset

theorem Within.advance (h : c.Within s) (n : Nat) : (c.advance n).Within s := by
  induction n generalizing c with
  | zero => exact h
  | succ n ih => exact ih h.next

/-- What lies after a cursor is the text from its offset on. -/
theorem Within.after (h : c.Within s) : c.after = s.drop c.offset := by
  rw [← h.text, Cursor.text, h.offset, ← List.length_reverse, List.drop_left]

/-- What lies before a cursor is the text up to its offset. -/
theorem Within.before (h : c.Within s) : c.before = (s.take c.offset).reverse := by
  rw [← h.text, Cursor.text, h.offset, ← List.length_reverse, List.take_left, List.reverse_reverse]

theorem Within.offset_le (h : c.Within s) : c.offset ≤ s.length := by
  rw [← h.text, Cursor.text, List.length_append, List.length_reverse, h.offset]
  exact Nat.le_add_right _ _

/-- The character before a cursor. -/
theorem Within.previous? (h : c.Within s) :
    c.previous? = if c.offset = 0 then none else s[c.offset - 1]? := by
  rw [Cursor.previous?, h.before, List.head?_reverse]
  split
  · next hzero => simp [hzero]
  · next hzero =>
    have hle := h.offset_le
    rw [List.getLast?_eq_getElem?, List.length_take, Nat.min_eq_left hle, List.getElem?_take_of_lt]
    omega

theorem next_advance (n : Nat) (c : Cursor) : (c.advance n).next = c.advance (n + 1) := by
  induction n generalizing c with
  | zero => rfl
  | succ n ih => exact ih c.next

theorem advance_advance (m n : Nat) (c : Cursor) : (c.advance m).advance n = c.advance (m + n) := by
  induction m generalizing c with
  | zero => rw [Nat.zero_add]; rfl
  | succ m ih =>
    rw [Nat.succ_add]
    exact ih c.next

theorem after_advance (n : Nat) (c : Cursor) : (c.advance n).after = c.after.drop n := by
  induction n generalizing c with
  | zero => rfl
  | succ n ih =>
    obtain ⟨offset, before, after⟩ := c
    rw [Cursor.advance, ih]
    cases after <;> simp [Cursor.next]

theorem offset_advance {n : Nat} {c : Cursor} (h : n ≤ c.after.length) :
    (c.advance n).offset = c.offset + n := by
  induction n generalizing c with
  | zero => rfl
  | succ n ih =>
    obtain ⟨offset, before, after⟩ := c
    cases after with
    | nil => cases h
    | cons x rest =>
      rw [Cursor.advance, ih (Nat.le_of_succ_le_succ h)]
      simp only [Cursor.next]
      omega

theorem offset_le_next (c : Cursor) : c.offset ≤ c.next.offset := by
  rw [Cursor.next]
  split
  · exact Nat.le_refl _
  · exact Nat.le_succ _

theorem offset_le_advance (n : Nat) (c : Cursor) : c.offset ≤ (c.advance n).offset := by
  induction n generalizing c with
  | zero => exact Nat.le_refl _
  | succ n ih => exact Nat.le_trans (offset_le_next c) (ih c.next)

end Cursor

/-! ### Hits -/

variable {α β : Type} {read : Reader β} {s : List Char}

/-- A hit is what has been read at some cursor of the text. -/
theorem exists_read_of_mem_hitsFrom {hit : Hit β} {fuel : Nat} {nonempty : Bool} {c : Cursor}
    (hc : c.Within s) (h : hit ∈ hitsFrom read fuel nonempty c) :
    ∃ nonempty' c', c'.Within s ∧ c'.offset = hit.offset ∧
      read nonempty' c' = some (hit.length, hit.value) := by
  induction fuel generalizing nonempty c with
  | zero => cases h
  | succ fuel ih =>
    rw [hitsFrom] at h
    split at h
    · next n v hread =>
      rcases List.mem_cons.mp h with rfl | h
      · exact ⟨nonempty, c, hc, rfl, hread⟩
      · exact ih (hc.advance n) h
    · split at h
      · cases h
      · exact ih hc.next h

/-- Hits from a cursor on do not start before it. -/
theorem offset_le_of_mem_hitsFrom {hit : Hit β} {fuel : Nat} {nonempty : Bool} {c : Cursor}
    (h : hit ∈ hitsFrom read fuel nonempty c) : c.offset ≤ hit.offset := by
  induction fuel generalizing nonempty c with
  | zero => cases h
  | succ fuel ih =>
    rw [hitsFrom] at h
    split at h
    · next n v _ =>
      rcases List.mem_cons.mp h with rfl | h
      · exact Nat.le_refl _
      · exact Nat.le_trans (Cursor.offset_le_advance n c) (ih h)
    · split at h
      · cases h
      · exact Nat.le_trans (Cursor.offset_le_next c) (ih h)

/-- No hit starts before another one that has been found earlier. -/
theorem pairwise_offset_hitsFrom (read : Reader β) (fuel : Nat) (nonempty : Bool) (c : Cursor) :
    (hitsFrom read fuel nonempty c).Pairwise fun a b => a.offset ≤ b.offset := by
  induction fuel generalizing nonempty c with
  | zero => exact List.Pairwise.nil
  | succ fuel ih =>
    rw [hitsFrom]
    split
    · next n v _ =>
      exact List.pairwise_cons.mpr ⟨fun hit hhit =>
        Nat.le_trans (Cursor.offset_le_advance n c) (offset_le_of_mem_hitsFrom hhit), ih _ _⟩
    · split
      · exact List.Pairwise.nil
      · exact ih _ _

/-- Nothing is found where nothing can be read from a cursor on. -/
theorem hitsFrom_eq_nil {fuel : Nat} {nonempty : Bool} {c : Cursor}
    (h : ∀ nonempty n, read nonempty (c.advance n) = none) :
    hitsFrom read fuel nonempty c = [] := by
  induction fuel generalizing nonempty c with
  | zero => rfl
  | succ fuel ih =>
    have hhere : read nonempty c = none := h nonempty 0
    have hnext : hitsFrom read fuel false c.next = [] := ih fun nonempty n => h nonempty (n + 1)
    rw [hitsFrom, hhere, hnext]
    cases c.after <;> rfl

/-- How a search accounts for what is due. What is due at a cursor where there is a hit, which is not
empty, is the hit and what is due behind it; otherwise it is what is due at the next cursor. -/
structure Accounts (read : Reader β) (s : List Char) (value : Hit β → α)
    (due : Cursor → α → Prop) : Prop where
  /-- Behind a hit. -/
  hit : ∀ {nonempty c n v}, c.Within s → read nonempty c = some (n, v) →
    0 < n ∧ n ≤ c.after.length ∧
      ∀ a, due c a ↔ a = value ⟨c.offset, n, v⟩ ∨ due (c.advance n) a
  /-- Where there is no hit. -/
  miss : ∀ {nonempty c}, c.Within s → read nonempty c = none →
    ∀ a, due c a ↔ c.after ≠ [] ∧ due c.next a

/-- A search finds what is due, and nothing else. -/
theorem Accounts.mem_hitsFrom {value : Hit β → α} {due : Cursor → α → Prop}
    (h : Accounts read s value due) {fuel : Nat} {nonempty : Bool} {c : Cursor} (hc : c.Within s)
    (hfuel : c.after.length < fuel) (a : α) :
    a ∈ (hitsFrom read fuel nonempty c).map value ↔ due c a := by
  induction fuel generalizing nonempty c with
  | zero => cases hfuel
  | succ fuel ih =>
    rw [hitsFrom]
    split
    · next n v hread =>
      obtain ⟨hpos, hle, hdue⟩ := h.hit hc hread
      rw [List.map_cons, List.mem_cons, hdue, ih (hc.advance n)]
      rw [Cursor.after_advance, List.length_drop]
      omega
    · next hread =>
      rw [h.miss hc hread]
      split
      · next hnil => simp [hnil]
      · next x rest hcons =>
        have hnext : c.next.after = rest := by
          obtain ⟨offset, before, after⟩ := c
          cases hcons
          rfl
        rw [ih hc.next (by rw [hcons, List.length_cons] at hfuel; rw [hnext]; omega)]
        simp [hcons]

/-- What a search finds is in order if each hit comes before what is due behind it. -/
theorem Accounts.pairwise_hitsFrom {value : Hit β → α} {due : Cursor → α → Prop}
    (h : Accounts read s value due) {r : α → α → Prop}
    (hr : ∀ {nonempty c n v}, c.Within s → read nonempty c = some (n, v) →
      ∀ a, due (c.advance n) a → r (value ⟨c.offset, n, v⟩) a)
    {fuel : Nat} {nonempty : Bool} {c : Cursor} (hc : c.Within s)
    (hfuel : c.after.length < fuel) :
    ((hitsFrom read fuel nonempty c).map value).Pairwise r := by
  induction fuel generalizing nonempty c with
  | zero => cases hfuel
  | succ fuel ih =>
    rw [hitsFrom]
    split
    · next n v hread =>
      obtain ⟨hpos, hle, -⟩ := h.hit hc hread
      have hrest : (c.advance n).after.length < fuel := by
        rw [Cursor.after_advance, List.length_drop]
        omega
      refine List.pairwise_cons.mpr ⟨fun a ha => ?_, ih (hc.advance n) hrest⟩
      exact hr hc hread a ((h.mem_hitsFrom (hc.advance n) hrest a).mp ha)
    · split
      · exact List.Pairwise.nil
      · next x rest hcons =>
        refine ih hc.next ?_
        obtain ⟨offset, before, after⟩ := c
        cases hcons
        exact Nat.lt_of_succ_lt_succ hfuel

end FlagAudit.Text
