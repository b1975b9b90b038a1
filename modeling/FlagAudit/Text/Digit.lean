import FlagAudit.Text.Blank

/-!
# Decimal digits and whole numbers

Every script has its ten decimal digits in a row, so a table of the zeros is a table of the digits.
A whole number is read as people write it: blanks around it, one sign, and single low lines between
digits are allowed, and the digits may be of any script, mixed.
-/

namespace FlagAudit.Text

/-- The code points, from 128 on, of the digits zero. -/
def digitZeros : List Nat := [
  1632, 1776, 1984, 2406, 2534, 2662, 2790, 2918, 3046, 3174, 3302, 3430, 3558, 3664, 3792,
  3872, 4160, 4240, 6112, 6160, 6470, 6608, 6784, 6800, 6992, 7088, 7232, 7248, 42528, 43216,
  43264, 43472, 43504, 43600, 44016, 65296, 66720, 68912, 69734, 69872, 69942, 70096, 70384,
  70736, 70864, 71248, 71360, 71472, 71904, 72016, 72784, 73040, 73120, 92768, 92864, 93008,
  120782, 120792, 120802, 120812, 120822, 123200, 123632, 125264, 130032]

/-- The value of a decimal digit. -/
def digitValue? (c : Char) : Option Nat :=
  if c.toNat < 128 then
    if c.isDigit then some (c.toNat - 48) else none
  else (digitZeros.find? fun z => z ≤ c.toNat && c.toNat < z + 10).map (c.toNat - ·)

/-- Whether the character is a decimal digit of some script. -/
def isDecimalDigit (c : Char) : Bool := (digitValue? c).isSome

/-- The most digits that a whole number in decimal notation may have. -/
def digitLimit : Nat := 4300

/-- How many digits a whole number has. -/
def digitCount (n : Int) : Nat := (Nat.toDigits 10 n.natAbs).length

/-- The values of a run of digits in which single low lines may separate digits. -/
def digitRun? : List Char → Option (List Nat)
  | [] => none
  | [c] => (digitValue? c).map ([·])
  | c :: '_' :: rest => do
    let d ← digitValue? c
    let ds ← digitRun? rest
    return d :: ds
  | c :: rest => do
    let d ← digitValue? c
    let ds ← digitRun? rest
    return d :: ds

/-- The number that decimal digits denote, most significant digit first. -/
def ofDigits (ds : List Nat) : Nat := ds.foldl (fun n d => 10 * n + d) 0

/-- The whole number that a text denotes, if it denotes one and keeps to the digit limit. -/
def wholeNumber? (s : List Char) : Option Int := do
  let s := trim s
  let (negative, ds) ← match s with
    | '-' :: r => (digitRun? r).map (true, ·)
    | '+' :: r => (digitRun? r).map (false, ·)
    | r => (digitRun? r).map (false, ·)
  if ds.length ≤ digitLimit then
    return if negative then -(ofDigits ds : Int) else (ofDigits ds : Int)
  else none

end FlagAudit.Text
