/-!
# Percent coding of bytes

A byte is written as a percent sign and two hexadecimal digits.  Writing uses upper-case
digits; reading takes either case, and a percent sign that two such digits do not follow
stands for itself.

## Main definitions

* `percentEncodeByte` — the escape of a byte.
* `percentDecode` — bytes with their escapes resolved.
-/

namespace Datacube

/-- The ASCII code of the upper-case hexadecimal digit for `n`. -/
def hexDigit (n : Nat) : Nat :=
  if n < 10 then 0x30 + n else 0x41 + (n - 10)

/-- The value of a hexadecimal digit, given by its ASCII code. -/
def hexValue? (code : Nat) : Option Nat :=
  if 0x30 ≤ code ∧ code ≤ 0x39 then some (code - 0x30)
  else if 0x41 ≤ code ∧ code ≤ 0x46 then some (code - 0x41 + 10)
  else if 0x61 ≤ code ∧ code ≤ 0x66 then some (code - 0x61 + 10)
  else none

/-- The two hexadecimal digits of a byte. -/
def hexByte (b : UInt8) : List Char :=
  [Char.ofNat (hexDigit (b.toNat / 16)), Char.ofNat (hexDigit (b.toNat % 16))]

/-- The bytes of a sequence in which escaped bytes are marked by percent signs. -/
def percentDecode : List UInt8 → List UInt8
  | [] => []
  | [b] => [b]
  | [b, c] => [b, c]
  | b :: h :: l :: bs =>
    match b == 0x25, hexValue? h.toNat, hexValue? l.toNat with
    | true, some high, some low => UInt8.ofNat (16 * high + low) :: percentDecode bs
    | _, _, _ => b :: percentDecode (h :: l :: bs)

@[simp] theorem percentDecode_nil : percentDecode [] = [] := rfl

end Datacube
