import FlagAudit.Proofs.Text.Search
import FlagAudit.Regex.Match

/-!
# Repetitions that take as much as they can

A repetition of a single character first takes all the characters that it can, and gives back some
of them only if what comes behind it cannot go on. Where it could not go on with fewer, nothing is
ever given back.
-/

namespace FlagAudit.Regex

open Text (Cursor)

/-- A character that a repetition could have taken is next wherever it stops before its end. -/
theorem drop_eq_cons_of_lt_takeWhile {p : Char → Bool} {l : List Char} {n : Nat}
    (h : n < (l.takeWhile p).length) : ∃ x rest, l.drop n = x :: rest ∧ p x = true := by
  induction l generalizing n with
  | nil => cases h
  | cons x l ih =>
    rw [List.takeWhile_cons] at h
    split at h
    · next hx =>
      cases n with
      | zero => exact ⟨x, l, rfl, hx⟩
      | succ n => exact ih (Nat.lt_of_succ_lt_succ h)
    · cases h

/-- The furthest stop of a sweep comes first. -/
theorem sweep_eq_cons (accepts : Char → Bool) (c : Cursor) (found : List Cursor) :
    ∃ others, sweep accepts none c.offset c.before c.after found =
        c.advance (c.after.takeWhile accepts).length :: others ∧
      ∀ x ∈ others, x ∈ found ∨ ∃ n < (c.after.takeWhile accepts).length, x = c.advance n := by
  obtain ⟨offset, before, after⟩ := c
  induction after generalizing offset before found with
  | nil => exact ⟨found, by rw [sweep]; rfl, fun x hx => .inl hx⟩
  | cons y after ih =>
    by_cases hy : accepts y = true
    · obtain ⟨others, heq, hothers⟩ :=
        ih (⟨offset, before, y :: after⟩ :: found) (offset + 1) (y :: before)
      refine ⟨others, ?_, fun x hx => ?_⟩
      · simp only [sweep, hy, List.takeWhile_cons_of_pos]
        exact heq
      · rw [List.takeWhile_cons_of_pos hy, List.length_cons]
        rcases hothers x hx with hx | ⟨n, hn, rfl⟩
        · rcases List.mem_cons.mp hx with rfl | hx
          · exact .inr ⟨0, Nat.succ_pos _, rfl⟩
          · exact .inl hx
        · exact .inr ⟨n + 1, Nat.succ_lt_succ hn, rfl⟩
    · refine ⟨found, ?_, fun x hx => .inl hx⟩
      simp [sweep, hy, Cursor.advance]

/-- A repetition of a single character takes all that it can if it is not possible to go on with
less. -/
theorem run_repeated_single {what : Single} {s : State} {k : Continue}
    (h : ∀ n < (s.cursor.after.takeWhile what.accepts).length,
      k { s with cursor := s.cursor.advance n } = none) :
    run (.repeated (.single what) 0 none .most) s k =
      k { s with
        cursor := s.cursor.advance (s.cursor.after.takeWhile what.accepts).length } := by
  obtain ⟨others, heq, hothers⟩ := sweep_eq_cons what.accepts s.cursor []
  simp only [run_repeated_stops, singleStops, heq, Nat.sub_zero, List.take_length]
  rw [List.findSome?_cons]
  split
  · next t ht => exact ht.symm
  · next ht =>
    rw [ht, List.findSome?_eq_none_iff]
    intro c hc
    rcases hothers c hc with hc | ⟨n, hn, rfl⟩
    · cases hc
    · exact h n hn

end FlagAudit.Regex
