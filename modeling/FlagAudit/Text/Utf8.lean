/-!
# Reading UTF-8

`decode` reads the shortest-form encoding and nothing else: a character above U+007F is a lead byte
and one, two or three continuation bytes; overlong forms, the code points of surrogates and those
above U+10FFFF are refused, and so is a sequence that the end of the text cuts short.
-/

namespace FlagAudit.Text.Utf8

/-- Whether a byte is a continuation byte. -/
def isTail (b : UInt8) : Bool := 0x80 ≤ b && b ≤ 0xBF

/-- The six bits that a continuation byte carries. -/
def tailBits (b : UInt8) : Nat := b.toNat - 0x80

/-- Whether `b` may follow the lead byte `a` of a sequence of three. -/
def fitsThree (a b : UInt8) : Bool :=
  if a == 0xE0 then 0xA0 ≤ b && b ≤ 0xBF
  else if a == 0xED then 0x80 ≤ b && b ≤ 0x9F
  else isTail b

/-- Whether `b` may follow the lead byte `a` of a sequence of four. -/
def fitsFour (a b : UInt8) : Bool :=
  if a == 0xF0 then 0x90 ≤ b && b ≤ 0xBF
  else if a == 0xF4 then 0x80 ≤ b && b ≤ 0x8F
  else isTail b

/-- The text that the bytes encode, if they encode one. -/
def decode : List UInt8 → Option (List Char)
  | [] => some []
  | a :: rest =>
    if a ≤ 0x7F then
      (decode rest).map (Char.ofNat a.toNat :: ·)
    else if a < 0xC2 then none
    else if a ≤ 0xDF then
      match rest with
      | b :: rest =>
        if isTail b then
          (decode rest).map (Char.ofNat ((a.toNat - 0xC0) * 64 + tailBits b) :: ·)
        else none
      | _ => none
    else if a ≤ 0xEF then
      match rest with
      | b :: c :: rest =>
        if fitsThree a b && isTail c then
          (decode rest).map
            (Char.ofNat (((a.toNat - 0xE0) * 64 + tailBits b) * 64 + tailBits c) :: ·)
        else none
      | _ => none
    else if a ≤ 0xF4 then
      match rest with
      | b :: c :: d :: rest =>
        if fitsFour a b && isTail c && isTail d then
          (decode rest).map
            (Char.ofNat ((((a.toNat - 0xF0) * 64 + tailBits b) * 64 + tailBits c) * 64
              + tailBits d) :: ·)
        else none
      | _ => none
    else none

end FlagAudit.Text.Utf8
