import Datacube.Text.Blank

/-!
# Counts

Depths, ordinals and cardinalities are written as unsigned decimal numbers that fit into
64 bits.  A plus sign may stand in front, and leading zeros do not matter.

## Main definitions

* `digitValue?`, `readDigits?` — the value of ASCII digits.
* `readCount?` — the count that a text denotes.
-/

namespace Datacube

/-- The value of an ASCII digit. -/
def digitValue? (c : Char) : Option Nat :=
  if c.isDigit then some (c.toNat - 0x30) else none

/-- The number that digits denote, read after the number `acc`. -/
def readDigitsFrom? (acc : Nat) : List Char → Option Nat
  | [] => some acc
  | c :: cs => (digitValue? c).bind fun d => readDigitsFrom? (10 * acc + d) cs

/-- The number that one or more ASCII digits denote. -/
def readDigits? : List Char → Option Nat
  | [] => none
  | cs => readDigitsFrom? 0 cs

/-- Counts are below this bound. -/
def countBound : Nat := Nat.pow 2 64

/-- The count that a text denotes: an optional plus sign, then one or more digits whose
value is below `countBound`. -/
def readCount? (s : String) : Option Nat :=
  let digits := match s.toList with
    | '+' :: cs => cs
    | cs => cs
  (readDigits? digits).filter (· < countBound)

end Datacube
