/-!
# Line and column of an offset

Lines and columns are counted from one. A line ends with its line feed, which still belongs to it,
so the character after a line feed has column one. An offset may lie behind the end of the text:
then the missing characters count as columns of the last line.
-/

namespace FlagAudit.Text

/-- A place in a text. -/
structure Position where
  /-- The number of the line, from one. -/
  line : Nat
  /-- The number of the column within the line, from one. -/
  column : Nat
  deriving DecidableEq, Repr

/-- How many characters there are up to and with the last line feed. -/
def lastLineStart (s : List Char) : Nat :=
  s.length - (s.reverse.takeWhile (· != '\n')).length

/-- The place of the character at an offset. -/
def Position.ofOffset (text : List Char) (offset : Nat) : Position :=
  let seen := text.take offset
  ⟨seen.count '\n' + 1, offset - lastLineStart seen + 1⟩

end FlagAudit.Text
