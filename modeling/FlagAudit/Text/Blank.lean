/-!
# Blank characters

The characters that count as white space: those of bidirectional type white space, segment
separator or paragraph separator, and the space separators. There are twenty-nine of them, the four
information separators (file, group, record, unit) and the byte-order-free next-line character
among them; the zero-width space is not one.
-/

namespace FlagAudit.Text

/-- The white space of the whole character set. -/
def isBlank (c : Char) : Bool :=
  let n := c.toNat
  if n < 128 then (9 ≤ n && n ≤ 13) || (28 ≤ n && n ≤ 32)
  else n == 0x85 || n == 0xA0 || n == 0x1680 || (0x2000 ≤ n && n ≤ 0x200A) ||
    n == 0x2028 || n == 0x2029 || n == 0x202F || n == 0x205F || n == 0x3000

/-- The white space among the first 128 characters as text formats count it: tab, line feed,
vertical tab, form feed, carriage return and space. -/
def isAsciiBlank (c : Char) : Bool :=
  let n := c.toNat
  (9 ≤ n && n ≤ 13) || n == 32

/-- Without the blanks at its start. -/
def trimStart (s : List Char) : List Char := s.dropWhile isBlank

/-- Without the blanks at its two ends. -/
def trim (s : List Char) : List Char := (trimStart (trimStart s).reverse).reverse

end FlagAudit.Text
