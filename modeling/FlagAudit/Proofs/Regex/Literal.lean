import FlagAudit.Proofs.Regex.Greedy
import FlagAudit.Proofs.Regex.Run

/-!
# Expressions that begin with a text

Many patterns begin with characters that stand for themselves. Such a pattern occurs only where its
text stands, so it has no occurrence in a text that lacks one of its characters.
-/

namespace FlagAudit

namespace Regex

open Text (Cursor)

variable {text : List Char} {r : Regex} {s : State} {k : Continue}

/-- The one character that an expression stands for. -/
def letter (c : Char) : Single := .oneOf [.code c.toNat] false ⟨false, false⟩

/-- A text, and an expression behind it. -/
def behindText (text : List Char) (r : Regex) : Regex :=
  text.foldr (fun c r => .concat (.single (letter c)) r) r

theorem accepts_letter {c d : Char} : (letter c).accepts d = true ↔ d = c := by
  rw [← Char.toNat_inj]
  simp [letter, Single.accepts, SetItem.accepts, SetItem.has]

/-- An expression behind a text is gone through where the text stands. -/
theorem run_behindText (text : List Char) (r : Regex) (s : State) (k : Continue) :
    run (behindText text r) s k =
      if text <+: s.cursor.after then
        run r { s with cursor := s.cursor.advance text.length } k
      else none := by
  induction text generalizing s with
  | nil => rw [if_pos (List.nil_prefix)]; rfl
  | cons c text ih =>
    have hrun : run (behindText (c :: text) r) s k =
        run (.single (letter c)) s fun t => run (behindText text r) t k := run_concat _ _
    rw [hrun]
    cases hafter : s.cursor.after with
    | nil =>
      rw [if_neg (by simp), run_single_of_nil hafter]
    | cons x rest =>
      have hnext : s.cursor.next.after = rest := by
        rw [Cursor.next, hafter]
      rw [run_single hafter, ih, hnext]
      simp only [accepts_letter, List.cons_prefix_cons, eq_comm (a := x)]
      split <;> simp_all [Cursor.advance]

/-- A repetition of a single character takes all that it can if it is possible to go on there. -/
theorem run_repeated_single_of_some {what : Single} {t : State}
    (h : k { s with cursor := s.cursor.advance (s.cursor.after.takeWhile what.accepts).length } =
      some t) :
    run (.repeated (.single what) 0 none .most) s k = some t := by
  obtain ⟨others, heq, -⟩ := sweep_eq_cons what.accepts s.cursor []
  simp only [run_repeated_stops, singleStops, heq, Nat.sub_zero, List.take_length]
  rw [List.findSome?_cons, h]

/-- The stops that have been found before stay behind the new ones. -/
theorem sweep_append (accepts : Char → Bool) (offset : Nat) (before after : List Char)
    (found : List Cursor) :
    sweep accepts none offset before after found =
      sweep accepts none offset before after [] ++ found := by
  induction after generalizing offset before found with
  | nil => rfl
  | cons x after ih =>
    rw [sweep_cons, sweep_cons]
    split
    · rw [ih (offset + 1) (x :: before) (_ :: found), ih (offset + 1) (x :: before) [_],
        List.append_assoc]
      rfl
    · rfl

/-- To repeat a single character at least once is to go through it once and then to repeat it. -/
theorem run_repeated_once (what : Single) (s : State) (k : Continue) :
    run (.repeated (.single what) 1 none .most) s k =
      run (.single what) s fun t => run (.repeated (.single what) 0 none .most) t k := by
  obtain ⟨⟨offset, before, after⟩, spans⟩ := s
  cases after with
  | nil =>
    rw [run_single_of_nil rfl, run_repeated_stops]
    rfl
  | cons x after =>
    rw [run_single rfl]
    simp only [run_repeated_stops, singleStops, sweep_cons]
    split
    · rw [sweep_append, List.length_append, List.length_singleton, Nat.add_sub_cancel,
        List.take_left, Nat.sub_zero, List.take_length]
      rfl
    · simp

end Regex

namespace Pattern

variable {text content : List Char} {r : Regex} {count : Nat}

/-- Where its text does not stand, a pattern does not occur. -/
theorem reader_behindText_eq_none {nonempty : Bool} {c : Text.Cursor} (h : ¬ text <+: c.after) :
    reader ⟨Regex.behindText text r, count⟩ nonempty c = none := by
  rw [reader, Regex.run_behindText, if_neg h]
  rfl

/-- A pattern does not occur in a text that lacks a character of its own text. -/
theorem occurrences_behindText_eq_nil {x : Char} (hx : x ∈ text) (h : x ∉ content) :
    occurrences ⟨Regex.behindText text r, count⟩ content = [] := by
  refine Text.hitsFrom_eq_nil fun nonempty n => reader_behindText_eq_none fun hbegins => h ?_
  rw [Text.Cursor.after_advance] at hbegins
  exact List.mem_of_mem_drop (hbegins.subset hx)

end Pattern

end FlagAudit
