import Datacube.Text.Count
import Datacube.Text.Letter

/-!
# Reading numbers

The grammar of a number: an optional sign, then `inf`, `infinity` or `nan` in any letter
case, or ASCII digits with at most one decimal point, at least one digit on one of its
sides, and an optional exponent.  Blanks, digit separators and other scripts are refused.
The value is the binary64 number nearest to the decimal.

## Main definitions

* `Numeral` — the parts of a numeral.
* `Numeral.read?` — the numeral that characters spell.
* `readNumber?` — the number that a text denotes.
-/

namespace Datacube

/-- A sign that may be absent, and the characters after it. -/
def splitSign : List Char → Bool × List Char
  | '+' :: cs => (false, cs)
  | '-' :: cs => (true, cs)
  | cs => (false, cs)

/-- The parts of an unsigned numeral. -/
structure Numeral where
  /-- The digits in front of the point. -/
  whole : List Char
  /-- The digits after the point. -/
  fraction : List Char
  /-- The power of ten that scales the numeral. -/
  exponent : Int
  deriving DecidableEq, Repr

/-- The exponent that the characters after the digits spell: none, or a mark, an optional sign
and digits. -/
def readExponent? : List Char → Option Int
  | [] => some 0
  | c :: cs =>
    if c = 'e' ∨ c = 'E' then
      let (negative, digits) := splitSign cs
      (readDigits? digits).map fun n => if negative then -(n : Int) else n
    else none

/-- The numeral that characters spell. -/
def Numeral.read? (cs : List Char) : Option Numeral :=
  let whole := cs.takeWhile Char.isDigit
  let rest := cs.dropWhile Char.isDigit
  let (fraction, rest) := match rest with
    | '.' :: cs => (cs.takeWhile Char.isDigit, cs.dropWhile Char.isDigit)
    | cs => ([], cs)
  if whole.isEmpty && fraction.isEmpty then none
  else (readExponent? rest).map fun exponent => ⟨whole, fraction, exponent⟩

/-- The digits of a numeral as one number. -/
def Numeral.significand (n : Numeral) : Nat :=
  (readDigitsFrom? 0 (n.whole ++ n.fraction)).getD 0

/-- The number that a numeral denotes.  Beyond four hundred decimal places on either side of
its digits an exponent makes no difference: the value is infinite or zero. -/
def Numeral.value (n : Numeral) : Float :=
  let places := n.whole.length + n.fraction.length
  let exponent := max (-(places + 400 : Int)) (min 400 (n.exponent - n.fraction.length))
  if 0 ≤ exponent then Float.ofScientific n.significand false exponent.toNat
  else Float.ofScientific n.significand true (-exponent).toNat

/-- Whether characters spell infinity. -/
def isInfinityName (cs : List Char) : Bool :=
  cs.map Char.toLower == "inf".toList || cs.map Char.toLower == "infinity".toList

/-- Whether characters spell the value that is no number. -/
def isNaNName (cs : List Char) : Bool :=
  cs.map Char.toLower == "nan".toList

/-- The unsigned number that characters spell. -/
def readMagnitude? (cs : List Char) : Option Float :=
  if isInfinityName cs then some (Float.ofBits 0x7FF0000000000000)
  else if isNaNName cs then some (Float.ofBits 0x7FF8000000000000)
  else (Numeral.read? cs).map Numeral.value

/-- The number that a text denotes. -/
def readNumber? (s : String) : Option Float :=
  let (negative, cs) := splitSign s.toList
  (readMagnitude? cs).map fun x => if negative then -x else x

end Datacube
