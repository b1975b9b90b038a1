import FlagAudit.Regex.Match

/-!
# What an expression lets through

Backtracking tries one way after the other, so an expression can be gone through from a state if one
of its ways leads to a state from which it is possible to go on. As long as what comes behind the
expression depends on the characters that are left alone, so does the expression itself: `Accepts`
says on which ones.
-/

namespace FlagAudit.Regex

/-- A way to go on that is open just if the characters that are left have a property. -/
def Accepts (k : Continue) (p : List Char → Prop) : Prop :=
  ∀ s : State, (k s).isSome = true ↔ p s.cursor.after

variable {k : Continue} {p q : List Char → Prop}

theorem Accepts.congr (h : Accepts k p) (hpq : ∀ s, p s ↔ q s) : Accepts k q :=
  fun s => (h s).trans (hpq _)

@[simp] theorem after_next (c : Text.Cursor) : c.next.after = c.after.tail := by
  unfold Text.Cursor.next
  split <;> simp_all

/-- A sequence is gone through part by part. -/
theorem run_concatAll_cons (r : Regex) (rs : List Regex) (s : State) (k : Continue) :
    run (.concatAll (r :: rs)) s k = run r s fun t => run (.concatAll rs) t k := by
  cases rs <;> rfl

theorem accepts_single (what : Single) (h : Accepts k p) :
    Accepts (fun s => run (.single what) s k)
      fun s => ∃ c rest, s = c :: rest ∧ what.accepts c = true ∧ p rest := by
  intro s
  match hs : s.cursor.after with
  | [] => simp [run_single_of_nil hs]
  | c :: rest =>
    by_cases hc : what.accepts c = true
    · simp only [run_single hs, hs, hc, if_true, h _, after_next, List.tail_cons]
      constructor
      · exact fun hp => ⟨c, rest, rfl, hc, hp⟩
      · rintro ⟨c', rest', heq, -, hp⟩
        rw [List.cons.injEq] at heq
        exact heq.2 ▸ hp
    · simp only [run_single hs, hc, Bool.false_eq_true, if_false, Option.isSome_none, false_iff]
      rintro ⟨c', rest', heq, hc', -⟩
      rw [List.cons.injEq] at heq
      exact hc (heq.1 ▸ hc')

theorem accepts_either {a b : Regex} (ha : Accepts (fun s => run a s k) p)
    (hb : Accepts (fun s => run b s k) q) :
    Accepts (fun s => run (.either a b) s k) fun s => p s ∨ q s := by
  intro s
  simp only [run_either, Option.isSome_or, Bool.or_eq_true]
  exact or_congr (ha s) (hb s)

/-- Of some expressions, at least one, one has to be gone through. -/
theorem accepts_eitherAll {α : Type} {f : α → Regex} {P : α → List Char → Prop} {xs : List α}
    (hne : xs ≠ []) (h : ∀ x ∈ xs, Accepts (fun s => run (f x) s k) (P x)) :
    Accepts (fun s => run (.eitherAll (xs.map f)) s k) fun s => ∃ x ∈ xs, P x s := by
  induction xs with
  | nil => exact absurd rfl hne
  | cons x xs ih =>
    rw [List.forall_mem_cons] at h
    cases xs with
    | nil => exact h.1.congr fun s => by simp
    | cons y ys =>
      exact (accepts_either h.1 (ih (by simp) h.2)).congr fun s => by simp

/-! ### Repetitions of a single character -/

theorem sweep_cons (accepts : Char → Bool) (offset : Nat) (before : List Char) (x : Char)
    (after : List Char) (found : List Text.Cursor) :
    sweep accepts none offset before (x :: after) found =
      if accepts x = true then
        sweep accepts none (offset + 1) (x :: before) after (⟨offset, before, x :: after⟩ :: found)
      else ⟨offset, before, x :: after⟩ :: found := by
  simp [sweep]

/-- A place that characters which are accepted lead to. -/
def LeadsTo (accepts : Char → Bool) (offset : Nat) (before after : List Char) (c : Text.Cursor) : Prop :=
  ∃ piece rest, after = piece ++ rest ∧ (∀ x ∈ piece, accepts x = true) ∧
    c = ⟨offset + piece.length, piece.reverse ++ before, rest⟩

theorem leadsTo_nil_iff {accepts : Char → Bool} {offset : Nat} {before : List Char} {c : Text.Cursor} :
    LeadsTo accepts offset before [] c ↔ c = ⟨offset, before, []⟩ := by
  constructor
  · rintro ⟨piece, rest, heq, -, rfl⟩
    obtain ⟨rfl, rfl⟩ := List.append_eq_nil_iff.mp heq.symm
    rfl
  · rintro rfl
    exact ⟨[], [], rfl, List.forall_mem_nil _, rfl⟩

/-- No character leads to the place itself, and the first one, if it is accepted, to the place behind it. -/
theorem leadsTo_cons_iff {accepts : Char → Bool} {offset : Nat} {before after : List Char} {x : Char}
    {c : Text.Cursor} :
    LeadsTo accepts offset before (x :: after) c ↔
      c = ⟨offset, before, x :: after⟩ ∨
        accepts x = true ∧ LeadsTo accepts (offset + 1) (x :: before) after c := by
  constructor
  · rintro ⟨piece, rest, heq, hpiece, rfl⟩
    cases piece with
    | nil => exact .inl (by rw [heq]; rfl)
    | cons y piece =>
      rw [List.cons_append, List.cons.injEq] at heq
      obtain ⟨rfl, rfl⟩ := heq
      rw [List.forall_mem_cons] at hpiece
      exact .inr ⟨hpiece.1, piece, rest, rfl, hpiece.2, by simp; omega⟩
  · rintro (rfl | ⟨hx, piece, rest, rfl, hpiece, rfl⟩)
    · exact ⟨[], x :: after, rfl, List.forall_mem_nil _, rfl⟩
    · exact ⟨x :: piece, rest, rfl, List.forall_mem_cons.mpr ⟨hx, hpiece⟩, by simp; omega⟩

/-- The stops of a sweep are the places that characters which are accepted lead to. -/
theorem mem_sweep {accepts : Char → Bool} {offset : Nat} {before after : List Char}
    {found : List Text.Cursor} {c : Text.Cursor} :
    c ∈ sweep accepts none offset before after found ↔
      c ∈ found ∨ LeadsTo accepts offset before after c := by
  induction after generalizing offset before found with
  | nil => rw [sweep, List.mem_cons, leadsTo_nil_iff, or_comm]
  | cons x after ih =>
    rw [sweep_cons, leadsTo_cons_iff]
    cases accepts x with
    | true => rw [if_pos rfl, ih, List.mem_cons, or_comm (b := c ∈ found), or_assoc, and_iff_right rfl]
    | false =>
      rw [if_neg Bool.false_ne_true, List.mem_cons, or_comm]
      simp only [Bool.false_eq_true, false_and, or_false]

/-- A single character can be repeated as long as it is accepted, and any number of times less. -/
theorem accepts_repeated (what : Single) (h : Accepts k p) :
    Accepts (fun s => run (.repeated (.single what) 0 none .most) s k) fun s =>
      ∃ piece rest, s = piece ++ rest ∧ (∀ c ∈ piece, what.accepts c = true) ∧ p rest := by
  intro s
  simp only [run_repeated_stops, singleStops, Nat.sub_zero, List.take_length,
    List.findSome?_isSome_iff, mem_sweep, List.not_mem_nil, false_or, h _]
  constructor
  · rintro ⟨_, ⟨piece, rest, heq, hpiece, rfl⟩, hp⟩
    exact ⟨piece, rest, heq, hpiece, hp⟩
  · rintro ⟨piece, rest, heq, hpiece, hp⟩
    exact ⟨_, ⟨piece, rest, heq, hpiece, rfl⟩, hp⟩

end FlagAudit.Regex

namespace FlagAudit.Pattern

/-- A pattern occurs at the start of a text if there is a way through it. -/
theorem matchesStart_eq (p : Pattern) (s : List Char) :
    p.matchesStart s = (Regex.run p.body ⟨.start s, []⟩ some).isSome := by
  rw [matchesStart, reader]
  simp only [Bool.false_and, Bool.false_eq_true, if_false]
  cases Regex.run p.body ⟨.start s, []⟩ some <;> rfl

end FlagAudit.Pattern
