import Mathlib.Data.List.Pairwise
import FlagAudit.Proofs.Text.Search

/-!
# What a search passes over

Behind a hit a search goes on where the hit ends, so hits do not overlap (`hits_apart`). What could
be read at a place inside a hit is passed over; what can be read anywhere else is a hit itself
(`exists_hit_covering`). So nothing is passed over if nothing can be read inside of what can be read
elsewhere (`mem_hits_iff`), and the first hit is at the first place where something can be read in any
case (`head?_hits`).
-/

namespace FlagAudit.Text

variable {β : Type} {read : Reader β} {s : List Char}

/-- In a text, what is before and behind a cursor is determined by its offset. -/
theorem Cursor.Within.eq {c d : Cursor} (hc : c.Within s) (hd : d.Within s)
    (h : c.offset = d.offset) : c = d := by
  have hbefore := hc.before.trans ((congrArg (fun n => (s.take n).reverse) h).trans hd.before.symm)
  have hafter := hc.after.trans ((congrArg (fun n => s.drop n) h).trans hd.after.symm)
  cases c
  cases d
  simp_all

/-- A reader that reads the same whether or not something empty will do, because it never reads
anything empty. It never reads beyond the end of the text. -/
structure Solid (read : Reader β) (s : List Char) : Prop where
  /-- The flag has no bearing on what is read. -/
  flag : ∀ nonempty c, read nonempty c = read false c
  /-- What is read is in the text and not empty. -/
  bound : ∀ {c n v}, c.Within s → read false c = some (n, v) → 0 < n ∧ n ≤ c.after.length

/-- Each hit ends before the next one starts. -/
theorem Solid.pairwise_hitsFrom (h : Solid read s) {fuel : Nat} {nonempty : Bool} {c : Cursor}
    (hc : c.Within s) :
    (hitsFrom read fuel nonempty c).Pairwise fun a b => a.offset + a.length ≤ b.offset := by
  induction fuel generalizing nonempty c with
  | zero => exact List.Pairwise.nil
  | succ fuel ih =>
    rw [hitsFrom, h.flag]
    split
    · next n v hread =>
      obtain ⟨-, hle⟩ := h.bound hc hread
      refine List.pairwise_cons.mpr ⟨fun hit hhit => ?_, ih (hc.advance n)⟩
      rw [← Cursor.offset_advance hle]
      exact offset_le_of_mem_hitsFrom hhit
    · split
      · exact List.Pairwise.nil
      · exact ih hc.next

/-- What can be read at a cursor is a hit, or the cursor is inside a hit. -/
theorem Solid.exists_hitFrom_covering (h : Solid read s) {fuel : Nat} {nonempty : Bool}
    {c d : Cursor} (hc : c.Within s) (hd : d.Within s) (hle : c.offset ≤ d.offset)
    (hfuel : c.after.length < fuel) {n : Nat} {v : β} (hread : read false d = some (n, v)) :
    ∃ hit ∈ hitsFrom read fuel nonempty c, hit.offset ≤ d.offset ∧
      d.offset < hit.offset + hit.length ∧ (hit.offset = d.offset → hit = ⟨d.offset, n, v⟩) := by
  induction fuel generalizing nonempty c with
  | zero => cases hfuel
  | succ fuel ih =>
    rw [hitsFrom, h.flag]
    split
    · next m w hhere =>
      obtain ⟨hpos, hbound⟩ := h.bound hc hhere
      have hoffset := Cursor.offset_advance hbound
      by_cases hinside : d.offset < c.offset + m
      · refine ⟨_, List.mem_cons_self, hle, hinside, fun heq => ?_⟩
        obtain rfl := hc.eq hd heq
        rw [hread] at hhere
        cases hhere
        rfl
      · have hrest : (c.advance m).after.length < fuel := by
          rw [Cursor.after_advance, List.length_drop]
          omega
        obtain ⟨hit, hmem, hhit⟩ := @ih (m == 0) _ (hc.advance m) (by omega) hrest
        exact ⟨hit, List.mem_cons_of_mem _ hmem, hhit⟩
    · next hnone =>
      have hlt : c.offset < d.offset := by
        refine Nat.lt_of_le_of_ne hle fun heq => ?_
        obtain rfl := hc.eq hd heq
        rw [hread] at hnone
        cases hnone
      split
      · next hnil =>
        -- The cursor is at the end of the text, so nothing is behind it.
        have hend := hd.offset_le
        rw [hc.after, List.drop_eq_nil_iff] at hnil
        omega
      · next x rest hafter =>
        have hnext : c.next.offset = c.offset + 1 ∧ c.next.after = rest := by
          rw [Cursor.next, hafter]
          exact ⟨rfl, rfl⟩
        rw [hafter, List.length_cons] at hfuel
        exact ih hc.next (by omega) (by rw [hnext.2]; omega)

/-- Hits do not overlap: the one that starts first ends before the other one starts. -/
theorem Solid.hits_apart (h : Solid read s) {a b : Hit β} (ha : a ∈ hits read s)
    (hb : b ∈ hits read s) (hlt : a.offset < b.offset) : a.offset + a.length ≤ b.offset := by
  have hapart : (hits read s).Pairwise fun a b =>
      (a.offset < b.offset → a.offset + a.length ≤ b.offset) ∧
        (b.offset < a.offset → b.offset + b.length ≤ a.offset) := by
    refine (h.pairwise_hitsFrom (Cursor.within_start s)).imp fun hle => ⟨fun _ => hle, fun hlt => ?_⟩
    omega
  have : Std.Symm fun a b : Hit β =>
      (a.offset < b.offset → a.offset + a.length ≤ b.offset) ∧
        (b.offset < a.offset → b.offset + b.length ≤ a.offset) := ⟨fun _ _ => And.symm⟩
  refine (hapart.forall_of_forall (fun x _ => ?_) ha hb).1 hlt
  exact ⟨fun hlt => absurd hlt (Nat.lt_irrefl _), fun hlt => absurd hlt (Nat.lt_irrefl _)⟩

/-- What can be read somewhere in a text is a hit, or it starts inside a hit. -/
theorem Solid.exists_hit_covering (h : Solid read s) {d : Cursor} (hd : d.Within s) {n : Nat}
    {v : β} (hread : read false d = some (n, v)) :
    ∃ hit ∈ hits read s, hit.offset ≤ d.offset ∧ d.offset < hit.offset + hit.length ∧
      (hit.offset = d.offset → hit = ⟨d.offset, n, v⟩) :=
  h.exists_hitFrom_covering (Cursor.within_start s) hd (Nat.zero_le _)
    (by simp only [Cursor.start]; omega) hread

/-! ### The hits of a text -/

/-- There is a cursor at each offset of a text. -/
theorem Cursor.exists_within {i : Nat} (h : i ≤ s.length) :
    ∃ c : Cursor, c.Within s ∧ c.offset = i := by
  refine ⟨(Cursor.start s).advance i, (Cursor.within_start s).advance i, ?_⟩
  have hle : i ≤ (Cursor.start s).after.length := h
  rw [Cursor.offset_advance hle]
  exact Nat.zero_add i

/-- A hit is what has been read at its offset. -/
theorem Solid.exists_read (h : Solid read s) {hit : Hit β} (hhit : hit ∈ hits read s) :
    ∃ c : Cursor, c.Within s ∧ c.offset = hit.offset ∧ read false c = some (hit.length, hit.value) := by
  obtain ⟨nonempty, c, hc, hoffset, hread⟩ :=
    exists_read_of_mem_hitsFrom (Cursor.within_start s) hhit
  rw [h.flag] at hread
  exact ⟨c, hc, hoffset, hread⟩

/-- Hits are in the order of their offsets. -/
theorem Solid.pairwise_offsets (h : Solid read s) :
    (hits read s).Pairwise fun a b => a.offset < b.offset := by
  refine (h.pairwise_hitsFrom (Cursor.within_start s)).imp_of_mem ?_
  intro a b ha _ hle
  obtain ⟨c, hc, -, hread⟩ := h.exists_read ha
  have hpos := (h.bound hc hread).1
  omega

/-- If nothing can be read inside of what can be read at another place, everything that can be read is
a hit. -/
theorem Solid.mem_hits_iff (h : Solid read s)
    (hapart : ∀ {c d : Cursor} {n m : Nat} {v w : β}, c.Within s → d.Within s →
      read false c = some (n, v) → read false d = some (m, w) → c.offset < d.offset →
        c.offset + n ≤ d.offset) {hit : Hit β} :
    hit ∈ hits read s ↔
      ∃ c : Cursor, c.Within s ∧ c.offset = hit.offset ∧ read false c = some (hit.length, hit.value) := by
  constructor
  · exact h.exists_read
  · rintro ⟨d, hd, hoffset, hread⟩
    obtain ⟨found, hfound, hle, hlt, heq⟩ := h.exists_hit_covering hd hread
    obtain ⟨c, hc, hc', hreadc⟩ := h.exists_read hfound
    rcases Nat.lt_or_eq_of_le hle with hbefore | hhere
    · have hend := hapart hc hd hreadc hread (hc' ▸ hbefore)
      omega
    · have hsame : found = hit := by rw [heq hhere, hoffset]
      exact hsame ▸ hfound

/-- The first hit is at the first place where something can be read. -/
theorem Solid.head?_hits (h : Solid read s) {d : Cursor} (hd : d.Within s) {n : Nat} {v : β}
    (hread : read false d = some (n, v))
    (hfirst : ∀ c : Cursor, c.Within s → c.offset < d.offset → read false c = none) :
    (hits read s).head? = some ⟨d.offset, n, v⟩ := by
  have hnotBefore : ∀ hit ∈ hits read s, d.offset ≤ hit.offset := by
    intro hit hhit
    obtain ⟨c, hc, hoffset, hreadc⟩ := h.exists_read hhit
    by_contra hlt
    rw [hfirst c hc (by omega)] at hreadc
    cases hreadc
  obtain ⟨hit, hhit, hle, -, heq⟩ := h.exists_hit_covering hd hread
  have hhere := Nat.le_antisymm hle (hnotBefore hit hhit)
  rw [← heq hhere]
  have hsorted := h.pairwise_offsets
  cases hhits : hits read s with
  | nil =>
    rw [hhits] at hhit
    cases hhit
  | cons first rest =>
    rw [hhits] at hhit hsorted hnotBefore
    rcases List.mem_cons.mp hhit with rfl | hrest
    · rfl
    · have hlt := (List.pairwise_cons.mp hsorted).1 hit hrest
      have hle := hnotBefore first List.mem_cons_self
      omega

end FlagAudit.Text
