import FlagAudit.Text.Blank

/-!
# Small readers

Readers that take something from the start of a text and give what is behind it.
-/

namespace FlagAudit.Text

/-- What is behind a text, if another text starts with it. -/
def behind? : (part s : List Char) → Option (List Char)
  | [], s => some s
  | _ :: _, [] => none
  | p :: part, c :: s => if p == c then behind? part s else none

/-- What is behind a text just completes it to the other text. -/
theorem behind?_eq_some {part s rest : List Char} :
    behind? part s = some rest ↔ s = part ++ rest := by
  induction part generalizing s with
  | nil => simp [behind?]
  | cons p part ih =>
    cases s with
    | nil => simp [behind?]
    | cons c s =>
      by_cases h : p = c
      · simp [behind?, h, ih]
      · simp [behind?, h, Ne.symm h]

theorem suffix_of_behind? {part s rest : List Char} (h : behind? part s = some rest) : rest <:+ s :=
  ⟨part, (behind?_eq_some.mp h).symm⟩

/-- The first of some words that a text starts with, and what is behind it. -/
def oneOf? (words : List (List Char)) (s : List Char) : Option (List Char × List Char) :=
  words.findSome? fun w => (behind? w s).map (w, ·)

theorem suffix_of_oneOf? {words : List (List Char)} {w s rest : List Char}
    (h : oneOf? words s = some (w, rest)) : rest <:+ s := by
  obtain ⟨word, -, hword⟩ := List.exists_of_findSome?_eq_some h
  obtain ⟨behind, hbehind, heq⟩ := Option.map_eq_some_iff.mp hword
  obtain ⟨-, rfl⟩ := Prod.mk.inj heq
  exact suffix_of_behind? hbehind

/-- What a reader gives at the first place of a text where it gives something. -/
def firstSome? {α : Type} (read : List Char → Option α) : List Char → Option α
  | [] => read []
  | c :: rest =>
    match read (c :: rest) with
    | some a => some a
    | none => firstSome? read rest

end FlagAudit.Text
