import FlagAudit.Text.Cursor

/-!
# Searching a text from left to right

`hits` finds the occurrences of something in a text the way a reader finds them: it tries each place
in turn, and behind a hit it goes on where the hit ends. Behind an empty hit it stays at the same
place and asks for a hit that is not empty; only if there is none does it move on.
-/

namespace FlagAudit.Text

/-- An occurrence in a text. -/
structure Hit (α : Type) where
  /-- Where it starts. -/
  offset : Nat
  /-- How many characters it covers. -/
  length : Nat
  /-- What was read there. -/
  value : α
  deriving Repr

/-- A way to read something at a cursor: how long it is, and what it is. The flag asks for something
that is not empty. -/
abbrev Reader (α : Type) := (nonempty : Bool) → Cursor → Option (Nat × α)

/-- The hits from a cursor on, in at most `fuel` steps. -/
def hitsFrom {α : Type} (read : Reader α) : (fuel : Nat) → (nonempty : Bool) → Cursor → List (Hit α)
  | 0, _, _ => []
  | fuel + 1, nonempty, c =>
    match read nonempty c with
    | some (n, v) => ⟨c.offset, n, v⟩ :: hitsFrom read fuel (n == 0) (c.advance n)
    | none =>
      match c.after with
      | [] => []
      | _ :: _ => hitsFrom read fuel false c.next

/-- The hits in a text, from left to right. Each place is tried at most twice. -/
def hits {α : Type} (read : Reader α) (s : List Char) : List (Hit α) :=
  hitsFrom read (2 * s.length + 2) false (Cursor.start s)

end FlagAudit.Text
