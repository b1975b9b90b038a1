/-!
# A place inside a text

A cursor stands between two characters of a text: it holds what lies before it, nearest character
first, and what lies after it. `Cursor.text_next` and `Cursor.text_advance` say that moving a cursor
does not change the text it stands in.
-/

namespace FlagAudit.Text

/-- A place between two characters of a text. -/
structure Cursor where
  /-- How many characters lie before the cursor. -/
  offset : Nat
  /-- The characters before the cursor, the nearest first. -/
  before : List Char
  /-- The characters after the cursor. -/
  after : List Char
  deriving Repr

namespace Cursor

/-- The cursor before the first character of a text. -/
def start (s : List Char) : Cursor := ⟨0, [], s⟩

/-- The text that the cursor stands in. -/
def text (c : Cursor) : List Char := c.before.reverse ++ c.after

/-- One character further; at the end it stays. -/
def next (c : Cursor) : Cursor :=
  match c.after with
  | [] => c
  | x :: rest => ⟨c.offset + 1, x :: c.before, rest⟩

/-- Some characters further, or at the end if there are not as many. -/
def advance : Nat → Cursor → Cursor
  | 0, c => c
  | n + 1, c => advance n c.next

/-- Some characters back, if there are as many. -/
def retreat? : Nat → Cursor → Option Cursor
  | 0, c => some c
  | n + 1, c =>
    match c.before with
    | [] => none
    | x :: rest => retreat? n ⟨c.offset - 1, rest, x :: c.after⟩

/-- The character before the cursor. -/
def previous? (c : Cursor) : Option Char := c.before.head?

@[simp] theorem text_start (s : List Char) : (start s).text = s := rfl

@[simp] theorem text_next (c : Cursor) : c.next.text = c.text := by
  unfold next text
  split <;> simp_all

@[simp] theorem text_advance (n : Nat) (c : Cursor) : (c.advance n).text = c.text := by
  induction n generalizing c with
  | zero => rfl
  | succ n ih => rw [advance, ih, text_next]

end Cursor

end FlagAudit.Text
