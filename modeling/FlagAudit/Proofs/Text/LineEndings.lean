import Mathlib.Data.List.Induction
import Mathlib.Data.List.TakeWhile
import FlagAudit.Text.Scan
import FlagAudit.Proofs.Text.Overlap
import FlagAudit.Proofs.Text.Position

/-!
# Line endings with a carriage return

`withReturns` puts a carriage return before every line feed of a text. A reader that takes carriage
returns and line feeds for the same kind of character reads the same in both texts. An offset moves by the
carriage returns before it (`place`), and none of them is in its own line, so its line and its column stay
(`Position.ofOffset_place`). A search comes across the same things then, at the same lines and columns
(`hits_withReturns`).
-/

namespace FlagAudit.Text

/-- The text with a carriage return before every line feed. -/
def withReturns (s : List Char) : List Char :=
  s.flatMap fun c => if c = '\n' then ['\r', '\n'] else [c]

/-- The text without its carriage returns. -/
def withoutReturns (s : List Char) : List Char := s.filter (· != '\r')

variable {s rest : List Char} {c : Char} {p : Char → Bool} {i j : Nat}

@[simp] theorem withReturns_nil : withReturns [] = [] := rfl

@[simp] theorem withReturns_feed (s : List Char) :
    withReturns ('\n' :: s) = '\r' :: '\n' :: withReturns s := rfl

theorem withReturns_cons (h : c ≠ '\n') (s : List Char) :
    withReturns (c :: s) = c :: withReturns s := by
  rw [withReturns, List.flatMap_cons, if_neg h]
  rfl

theorem withReturns_append (s t : List Char) :
    withReturns (s ++ t) = withReturns s ++ withReturns t := List.flatMap_append

theorem withReturns_eq_self (h : '\n' ∉ s) : withReturns s = s := by
  induction s with
  | nil => rfl
  | cons c s ih =>
    rw [List.mem_cons, not_or] at h
    rw [withReturns_cons (Ne.symm h.1), ih h.2]

theorem length_le_withReturns (s : List Char) : s.length ≤ (withReturns s).length := by
  induction s with
  | nil => exact Nat.le_refl _
  | cons c s ih =>
    by_cases hc : c = '\n'
    · subst hc
      simp only [withReturns_feed, List.length_cons]
      omega
    · rw [withReturns_cons hc]
      exact Nat.succ_le_succ ih

/-- Without carriage returns, it makes no difference whether some have been put in before. -/
theorem withoutReturns_withReturns (s : List Char) :
    withoutReturns (withReturns s) = withoutReturns s := by
  induction s with
  | nil => rfl
  | cons c s ih =>
    by_cases hc : c = '\n'
    · subst hc
      exact congrArg ('\n' :: ·) ih
    · rw [withReturns_cons hc, withoutReturns, withoutReturns, List.filter_cons, List.filter_cons]
      exact congrArg (fun u => if (c != '\r') = true then c :: u else u) ih

/-! ### Readers that take both for the same -/

theorem dropWhile_withReturns (hp : p '\r' = p '\n') (s : List Char) :
    (withReturns s).dropWhile p = withReturns (s.dropWhile p) := by
  induction s with
  | nil => rfl
  | cons c s ih =>
    by_cases hc : c = '\n'
    · subst hc
      cases hfeed : p '\n' <;> simp [hp, hfeed, ih]
    · rw [withReturns_cons hc, List.dropWhile_cons, List.dropWhile_cons]
      split
      · exact ih
      · exact (withReturns_cons hc s).symm

theorem takeWhile_withReturns (hp : p '\r' = p '\n') (s : List Char) :
    (withReturns s).takeWhile p = withReturns (s.takeWhile p) := by
  induction s with
  | nil => rfl
  | cons c s ih =>
    by_cases hc : c = '\n'
    · subst hc
      cases hfeed : p '\n' <;> simp [hp, hfeed, ih]
    · rw [withReturns_cons hc, List.takeWhile_cons, List.takeWhile_cons]
      split
      · rw [withReturns_cons hc, ih]
      · rfl

/-- Characters that are neither carriage returns nor line feeds stay as they are. -/
theorem takeWhile_withReturns_eq (hreturn : p '\r' = false) (hfeed : p '\n' = false) (s : List Char) :
    (withReturns s).takeWhile p = s.takeWhile p := by
  rw [takeWhile_withReturns (hreturn.trans hfeed.symm), withReturns_eq_self]
  intro hmem
  exact Bool.false_ne_true (hfeed.symm.trans (List.mem_takeWhile_imp hmem))

theorem trimStart_withReturns (s : List Char) :
    trimStart (withReturns s) = withReturns (trimStart s) :=
  dropWhile_withReturns (by decide) s

theorem head?_any_withReturns (hp : p '\r' = p '\n') (s : List Char) :
    (withReturns s).head?.any p = s.head?.any p := by
  cases s with
  | nil => rfl
  | cons c s =>
    by_cases hc : c = '\n'
    · subst hc
      exact hp
    · rw [withReturns_cons hc]
      rfl

/-- A piece of text that has neither carriage returns nor line feeds. -/
def InLine (part : List Char) : Prop := '\r' ∉ part ∧ '\n' ∉ part

instance (part : List Char) : Decidable (InLine part) := inferInstanceAs (Decidable (_ ∧ _))

theorem InLine.append {part part' : List Char} (h : InLine part) (h' : InLine part') :
    InLine (part ++ part') :=
  ⟨fun hmem => (List.mem_append.mp hmem).elim h.1 h'.1,
    fun hmem => (List.mem_append.mp hmem).elim h.2 h'.2⟩

theorem behind?_withReturns {part : List Char} (h : InLine part) (s : List Char) :
    behind? part (withReturns s) = (behind? part s).map withReturns := by
  induction part generalizing s with
  | nil => rfl
  | cons x part ih =>
    simp only [InLine, List.mem_cons, not_or] at h
    obtain ⟨⟨hreturn, hreturns⟩, ⟨hfeed, hfeeds⟩⟩ := h
    cases s with
    | nil => rfl
    | cons c s =>
      by_cases hc : c = '\n'
      · subst hc
        simp [behind?, Ne.symm hreturn, Ne.symm hfeed]
      · rw [withReturns_cons hc, behind?, behind?, ih ⟨hreturns, hfeeds⟩]
        split <;> rfl

theorem oneOf?_withReturns {words : List (List Char)} (h : ∀ w ∈ words, InLine w) (s : List Char) :
    oneOf? words (withReturns s) = (oneOf? words s).map (Prod.map id withReturns) := by
  induction words with
  | nil => rfl
  | cons w words ih =>
    obtain ⟨hw, hwords⟩ := List.forall_mem_cons.mp h
    rw [oneOf?, oneOf?, List.findSome?_cons, List.findSome?_cons, behind?_withReturns hw]
    cases behind? w s with
    | none => exact ih hwords
    | some rest => rfl

/-- Line endings are passed over where nothing is read at them. -/
theorem firstSome?_withReturns {α : Type} {read : List Char → Option α} {f : α → α}
    (hread : ∀ s, read (withReturns s) = (read s).map f) (hreturn : ∀ s, read ('\r' :: s) = none)
    (hfeed : ∀ s, read ('\n' :: s) = none) (s : List Char) :
    firstSome? read (withReturns s) = (firstSome? read s).map f := by
  induction s with
  | nil => exact hread []
  | cons c s ih =>
    by_cases hc : c = '\n'
    · subst hc
      simp only [withReturns_feed, firstSome?, hreturn, hfeed, ih]
    · have hhere := hread (c :: s)
      rw [withReturns_cons hc] at hhere
      rw [withReturns_cons hc, firstSome?, firstSome?, hhere]
      cases read (c :: s) with
      | none => exact ih
      | some a => rfl

/-! ### Where an offset goes -/

/-- The offset that an offset of a text becomes: the carriage returns before it are counted. -/
def place (s : List Char) (i : Nat) : Nat := (withReturns (s.take i)).length

theorem withReturns_eq_append (s : List Char) (i : Nat) :
    withReturns s = withReturns (s.take i) ++ withReturns (s.drop i) := by
  rw [← withReturns_append, List.take_append_drop]

theorem drop_place (s : List Char) (i : Nat) :
    (withReturns s).drop (place s i) = withReturns (s.drop i) := by
  rw [withReturns_eq_append s i, place, List.drop_left]

theorem take_place (s : List Char) (i : Nat) :
    (withReturns s).take (place s i) = withReturns (s.take i) := by
  rw [withReturns_eq_append s i, place, List.take_left]

/-- An offset goes on by as many characters as the characters before it become. -/
theorem place_add (s : List Char) (i n : Nat) : place s (i + n) = place s i + place (s.drop i) n := by
  rw [place, List.take_add, withReturns_append, List.length_append]
  rfl

theorem place_cons_one (h : c ≠ '\n') (s : List Char) : place (c :: s) 1 = 1 := by
  rw [place, List.take_succ_cons, withReturns_cons h]
  rfl

theorem place_lt_place (hij : i < j) (hj : j ≤ s.length) : place s i < place s j := by
  obtain ⟨n, rfl⟩ := Nat.exists_eq_add_of_lt hij
  have hle := length_le_withReturns ((s.drop i).take (n + 1))
  rw [List.length_take, List.length_drop] at hle
  rw [Nat.add_assoc, place_add, place]
  rw [place]
  omega

/-- An offset of the new text comes from one of the old text, unless it is inside a line ending. -/
theorem exists_place (hj : j ≤ (withReturns s).length) :
    (∃ i ≤ s.length, j = place s i) ∨ ∃ rest, (withReturns s).drop j = '\n' :: rest := by
  induction s generalizing j with
  | nil => exact .inl ⟨0, Nat.le_refl _, Nat.le_zero.mp hj⟩
  | cons c s ih =>
    -- The offsets behind the first character.
    have hbehind : ∀ n m, place (c :: s) 1 = n → j = n + m → m ≤ (withReturns s).length →
        (∃ i ≤ (c :: s).length, j = place (c :: s) i) ∨
          ∃ rest, (withReturns (c :: s)).drop j = '\n' :: rest := by
      rintro n m rfl rfl hm
      rcases ih hm with ⟨i, hi, rfl⟩ | ⟨rest, hrest⟩
      · exact .inl ⟨1 + i, by rw [List.length_cons]; omega, (place_add (c :: s) 1 i).symm⟩
      · exact .inr ⟨rest, by rw [← List.drop_drop, drop_place]; exact hrest⟩
    by_cases hc : c = '\n'
    · subst hc
      match j with
      | 0 => exact .inl ⟨0, Nat.zero_le _, rfl⟩
      | 1 => exact .inr ⟨withReturns s, rfl⟩
      | m + 2 => exact hbehind 2 m rfl (Nat.add_comm m 2) (Nat.le_of_add_le_add_right hj)
    · match j with
      | 0 => exact .inl ⟨0, Nat.zero_le _, rfl⟩
      | m + 1 =>
        rw [withReturns_cons hc] at hj
        exact hbehind 1 m (place_cons_one hc s) (Nat.add_comm m 1) (Nat.le_of_succ_le_succ hj)

/-- The character before an offset stays. -/
theorem getElem?_place_pred (hi : 0 < i) (hle : i ≤ s.length) :
    (withReturns s)[place s i - 1]? = s[i - 1]? := by
  obtain ⟨k, rfl⟩ := Nat.exists_eq_add_of_lt hi
  rw [Nat.zero_add] at hle ⊢
  have hcons := List.drop_eq_getElem_cons (Nat.lt_of_succ_le hle)
  -- The line ending or the character that the offset is behind.
  have hat : ∀ m, (withReturns s)[place s k + m]? = (withReturns (s.drop k))[m]? := fun m => by
    rw [← List.getElem?_drop, drop_place]
  rw [place_add, Nat.add_sub_cancel, List.getElem?_eq_getElem (Nat.lt_of_succ_le hle)]
  generalize s[k] = x at hcons
  rw [hcons] at hat ⊢
  by_cases hx : x = '\n'
  · subst hx
    exact hat 1
  · rw [place_cons_one hx]
    exact (hat 0).trans (by rw [withReturns_cons hx]; rfl)

/-! ### Lines and columns -/

theorem count_withReturns (s : List Char) : (withReturns s).count '\n' = s.count '\n' := by
  induction s with
  | nil => rfl
  | cons c s ih =>
    by_cases hc : c = '\n'
    · subst hc
      rw [withReturns_feed, List.count_cons_of_ne (by decide), List.count_cons_self,
        List.count_cons_self, ih]
    · rw [withReturns_cons hc, List.count_cons_of_ne hc, List.count_cons_of_ne hc, ih]

/-- What is behind the last line feed stays. -/
theorem takeWhile_reverse_withReturns (s : List Char) :
    (withReturns s).reverse.takeWhile (· != '\n') = s.reverse.takeWhile (· != '\n') := by
  induction s using List.reverseRecOn with
  | nil => rfl
  | append_singleton s c ih =>
    rw [withReturns_append, List.reverse_append, List.reverse_append]
    by_cases hc : c = '\n'
    · subst hc
      rfl
    · rw [withReturns_cons hc]
      change List.takeWhile _ (c :: (withReturns s).reverse) = List.takeWhile _ (c :: s.reverse)
      rw [List.takeWhile_cons, List.takeWhile_cons, ih]

/-- Up to the end of a text, the column counts from the last line feed before it. -/
theorem Position.ofOffset_eq (hi : i ≤ s.length) :
    Position.ofOffset s i =
      ⟨(s.take i).count '\n' + 1, ((s.take i).reverse.takeWhile (· != '\n')).length + 1⟩ := by
  have hlength : (s.take i).length = i := List.length_take_of_le hi
  have hle : ((s.take i).reverse.takeWhile (· != '\n')).length ≤ i := by
    have hsublist := (List.takeWhile_sublist (l := (s.take i).reverse) (· != '\n')).length_le
    rwa [List.length_reverse, hlength] at hsublist
  rw [Position.ofOffset, lastLineStart, Position.mk.injEq]
  refine ⟨rfl, ?_⟩
  rw [hlength]
  omega

/-- An offset keeps its line and its column. -/
theorem Position.ofOffset_place (hi : i ≤ s.length) :
    Position.ofOffset (withReturns s) (place s i) = Position.ofOffset s i := by
  have hplace : place s i ≤ (withReturns s).length := by
    rw [withReturns_eq_append s i, List.length_append]
    exact Nat.le_add_right _ _
  rw [ofOffset_eq hplace, ofOffset_eq hi, take_place, count_withReturns,
    takeWhile_reverse_withReturns]

/-! ### Searches -/

/-- A cursor is in the text with carriage returns where another one is in the text without them. -/
structure Cursor.Mirrors (s : List Char) (c c' : Cursor) : Prop where
  /-- The cursor in the text without them. -/
  left : c.Within s
  /-- The cursor in the text with them. -/
  right : c'.Within (withReturns s)
  /-- What is behind the two. -/
  after : c'.after = withReturns c.after

theorem Cursor.mirrors_start (s : List Char) :
    Cursor.Mirrors s (Cursor.start s) (Cursor.start (withReturns s)) :=
  ⟨within_start s, within_start _, rfl⟩

theorem Cursor.Mirrors.offset {c c' : Cursor} (h : Cursor.Mirrors s c c') :
    c'.offset = place s c.offset := by
  have hright := h.right.offset_le
  have hlength := congrArg List.length (h.right.after.symm.trans (h.after.trans
    ((congrArg withReturns h.left.after).trans (drop_place s c.offset).symm)))
  have hplace : place s c.offset ≤ (withReturns s).length := by
    rw [withReturns_eq_append s c.offset, List.length_append]
    exact Nat.le_add_right _ _
  rw [List.length_drop, List.length_drop] at hlength
  omega

theorem Cursor.next_after {c : Cursor} {x : Char} (h : c.after = x :: rest) : c.next.after = rest := by
  rw [Cursor.next, h]

theorem Cursor.Mirrors.after_cons {c c' : Cursor} {x : Char} (h : Cursor.Mirrors s c c')
    (hafter : c.after = x :: rest) (hx : x ≠ '\n') : c'.after = x :: withReturns rest :=
  h.after.trans ((congrArg withReturns hafter).trans (withReturns_cons hx rest))

theorem Cursor.Mirrors.after_feed {c c' : Cursor} (h : Cursor.Mirrors s c c')
    (hafter : c.after = '\n' :: rest) : c'.after = '\r' :: '\n' :: withReturns rest :=
  h.after.trans (congrArg withReturns hafter)

theorem Cursor.Mirrors.advance {c c' : Cursor} {n n' : Nat} (h : Cursor.Mirrors s c c')
    (hrest : c'.after.drop n' = withReturns (c.after.drop n)) :
    Cursor.Mirrors s (c.advance n) (c'.advance n') where
  left := h.left.advance n
  right := h.right.advance n'
  after := by rw [Cursor.after_advance, Cursor.after_advance, hrest]

/-- One step over a character that ends no line. -/
theorem Cursor.Mirrors.next {c c' : Cursor} {x : Char} (h : Cursor.Mirrors s c c')
    (hafter : c.after = x :: rest) (hx : x ≠ '\n') : Cursor.Mirrors s c.next c'.next where
  left := h.left.next
  right := h.right.next
  after := by rw [Cursor.next_after hafter, Cursor.next_after (h.after_cons hafter hx)]

/-- At a line ending there is one more step in the text with carriage returns. -/
theorem Cursor.Mirrors.nextLine {c c' : Cursor} (h : Cursor.Mirrors s c c')
    (hafter : c.after = '\n' :: rest) : Cursor.Mirrors s c.next c'.next.next where
  left := h.left.next
  right := h.right.next.next
  after := by
    rw [Cursor.next_after hafter, Cursor.next_after (Cursor.next_after (h.after_feed hafter))]

/-- The line and the column of something that has been found, and what has been found there. -/
def Hit.located {α : Type} (s : List Char) (hit : Hit α) : Position × α :=
  (Position.ofOffset s hit.offset, hit.value)

/-- What is found at cursors that mirror each other is at the same line and column. -/
theorem Cursor.Mirrors.located {α : Type} {c c' : Cursor} (h : Cursor.Mirrors s c c') (n n' : Nat)
    (f : α → α) (v : α) :
    Hit.located (withReturns s) ⟨c'.offset, n', f v⟩ = Prod.map id f (Hit.located s ⟨c.offset, n, v⟩) := by
  refine Prod.ext ?_ rfl
  exact h.offset ▸ Position.ofOffset_place h.left.offset_le

/-- A reader that reads the same in both texts, as far as what it gives is compared, and stops at the same
place. It reads nothing at a line ending. -/
structure SeesThrough {α : Type} (read : Reader α) (s : List Char) (f : α → α) : Prop where
  /-- It reads what is not empty, in the text without carriage returns. -/
  left : Solid read s
  /-- It reads what is not empty, in the text with carriage returns. -/
  right : Solid read (withReturns s)
  /-- Where it reads something. -/
  hit : ∀ {c c' n v}, Cursor.Mirrors s c c' → read false c = some (n, v) →
    ∃ n', read false c' = some (n', f v) ∧
      (c'.after.drop n') = withReturns (c.after.drop n)
  /-- Where it reads nothing. -/
  miss : ∀ {c c'}, Cursor.Mirrors s c c' → read false c = none → read false c' = none
  /-- At a line ending. -/
  lineEnd : ∀ {c : Cursor} {x rest}, c.after = x :: rest → x = '\r' ∨ x = '\n' → read false c = none

/-- A step where nothing is read, with something behind the cursor. -/
theorem hitsFrom_succ_of_none {α : Type} {read : Reader α} {fuel : Nat} {nonempty : Bool} {c : Cursor}
    {x : Char} (hread : read nonempty c = none) (hafter : c.after = x :: rest) :
    hitsFrom read (fuel + 1) nonempty c = hitsFrom read fuel false c.next := by
  rw [hitsFrom, hread, hafter]

/-- The searches from two places that mirror each other come across the same. At a line ending, the one with
the carriage return takes one step more. -/
theorem SeesThrough.hitsFrom_eq {α : Type} {read : Reader α} {f : α → α} (h : SeesThrough read s f)
    {c c' : Cursor} (hc : Cursor.Mirrors s c c') {fuel fuel' : Nat} {nonempty nonempty' : Bool}
    (hfuel : c.after.length < fuel) (hfuel' : c'.after.length < fuel') :
    (hitsFrom read fuel' nonempty' c').map (Hit.located (withReturns s)) =
      ((hitsFrom read fuel nonempty c).map (Hit.located s)).map (Prod.map id f) := by
  induction fuel generalizing c c' fuel' nonempty nonempty' with
  | zero => cases hfuel
  | succ fuel ih =>
    obtain ⟨fuel', rfl⟩ := Nat.exists_eq_add_of_lt (Nat.zero_lt_of_lt hfuel')
    rw [Nat.zero_add] at hfuel' ⊢
    cases hread : read false c with
    | some found =>
      obtain ⟨n, v⟩ := found
      obtain ⟨n', hread', hrest⟩ := h.hit hc hread
      obtain ⟨hpos, hle⟩ := h.left.bound hc.left hread
      obtain ⟨hpos', hle'⟩ := h.right.bound hc.right hread'
      rw [hitsFrom, hitsFrom, h.left.flag nonempty, h.left.flag nonempty', hread, hread', List.map_cons,
        List.map_cons, List.map_cons, hc.located n n']
      refine congrArg _ (ih (hc.advance hrest) ?_ ?_)
      · rw [Cursor.after_advance, List.length_drop]
        omega
      · rw [Cursor.after_advance, List.length_drop]
        omega
    | none =>
      have hread' := h.miss hc hread
      have hnone : ∀ nonempty, read nonempty c = none := fun nonempty => (h.left.flag _ _).trans hread
      have hnone' : ∀ nonempty, read nonempty c' = none := fun nonempty =>
        (h.left.flag _ _).trans hread'
      cases hafter : c.after with
      | nil =>
        have hafter' : c'.after = [] := hc.after.trans (congrArg withReturns hafter)
        rw [hitsFrom, hitsFrom, hnone, hnone', hafter, hafter']
        rfl
      | cons x rest =>
        have hnext := Cursor.next_after hafter
        rw [hafter] at hfuel
        rw [hitsFrom_succ_of_none (hnone _) hafter]
        by_cases hx : x = '\n'
        · subst hx
          -- There are two characters to step over in the text with carriage returns.
          have hafter' := hc.after_feed hafter
          have hfeed := Cursor.next_after hafter'
          rw [hafter', List.length_cons, List.length_cons] at hfuel'
          obtain ⟨fuel', rfl⟩ := Nat.exists_eq_add_of_lt (show 0 < fuel' by omega)
          rw [Nat.zero_add] at hfuel' ⊢
          rw [hitsFrom_succ_of_none (hnone' _) hafter',
            hitsFrom_succ_of_none (h.lineEnd hfeed (.inr rfl)) hfeed]
          refine ih (hc.nextLine hafter) ?_ ?_
          · rw [hnext]
            exact Nat.lt_of_succ_lt_succ hfuel
          · rw [Cursor.next_after hfeed]
            omega
        · have hafter' := hc.after_cons hafter hx
          rw [hafter'] at hfuel'
          rw [hitsFrom_succ_of_none (hnone' _) hafter']
          refine ih (hc.next hafter hx) ?_ ?_
          · rw [hnext]
            exact Nat.lt_of_succ_lt_succ hfuel
          · rw [Cursor.next_after hafter']
            exact Nat.lt_of_succ_lt_succ hfuel'

/-- A search comes across the same in both texts, at the same lines and columns. -/
theorem SeesThrough.hits_withReturns {α : Type} {read : Reader α} {f : α → α}
    (h : SeesThrough read s f) :
    (hits read (withReturns s)).map (Hit.located (withReturns s)) =
      ((hits read s).map (Hit.located s)).map (Prod.map id f) :=
  h.hitsFrom_eq (Cursor.mirrors_start s) (by simp only [Cursor.start]; omega)
    (by simp only [Cursor.start]; omega)

end FlagAudit.Text
