import FlagAudit.Text.Digit

/-!
# Numbers with a fraction or an exponent

Such a number matters here in one way only: whether it counts as zero once it is rounded to the
nearest binary floating-point number of 64 bits. The smallest of these above zero is `2 ^ -1074`,
and what is at most half of it rounds to zero.
-/

namespace FlagAudit.Text

/-- Whether `mantissa * 10 ^ exponent` rounds to zero. A number that has over 400 decimal places
more than digits is too small at any rate. -/
def roundsToZero (mantissa : Nat) (exponent : Int) : Bool :=
  if mantissa == 0 then true
  else if 0 ≤ exponent then false
  else
    let places := (-exponent).toNat
    if (Nat.toDigits 10 mantissa).length + 400 < places then true
    else mantissa * Nat.pow 2 1075 ≤ Nat.pow 10 places

/-- The run of ASCII digits at the start of a text, and what follows it. -/
def spanDigits (s : List Char) : List Char × List Char :=
  (s.takeWhile Char.isDigit, s.dropWhile Char.isDigit)

/-- The number that a text of ASCII digits denotes. -/
def digitsValue (ds : List Char) : Nat := ofDigits (ds.map fun c => c.toNat - 48)

end FlagAudit.Text
