import Datacube.Number.Reading
import Datacube.Number.Shortest
import Datacube.Text.DecimalDigit

/-!
# Display of cell values

A value that looks like a number is shown with at most two fractional digits and without
trailing zeros.  An integer literal keeps all its digits, and any other value is shown as it
is.

## Main definitions

* `looksNumeric` — the pattern of numbers.
* `displayNumber`, `displayValue` — the text that is shown.
-/

namespace Datacube

/-! ### The pattern of numbers -/

/-- Whether characters are an exponent: a mark, an optional sign, and digits. -/
def looksLikeExponent : List Char → Bool
  | c :: cs => (c == 'e' || c == 'E') && !(splitSign cs).2.isEmpty
      && (splitSign cs).2.all isDecimalDigit
  | [] => false

/-- Whether characters are a number without a sign: digits with at most one point among or
around them, and an optional exponent.  Digits of any script count. -/
def looksUnsigned (cs : List Char) : Bool :=
  let whole := cs.takeWhile isDecimalDigit
  let rest := match cs.dropWhile isDecimalDigit with
    | '.' :: cs => (cs.takeWhile isDecimalDigit, cs.dropWhile isDecimalDigit)
    | cs => ([], cs)
  !(whole.isEmpty && rest.1.isEmpty) && (rest.2.isEmpty || looksLikeExponent rest.2)

/-- Whether characters look like a number. -/
def looksNumeric (cs : List Char) : Bool := looksUnsigned (splitSign cs).2

/-! ### Display -/

/-- The magnitude from which a number has no fractional digits left to round. -/
def roundingLimit : Float := 1e15

/-- A number rounded to hundredths; halves go away from zero. -/
def roundToHundredths (x : Float) : Float :=
  let hundredths := Float.ofNat (Magnitude.ofFloat (x * 100)).round
  (if isNegative x then -hundredths else hundredths) / 100

/-- The text that is shown for a number.  Zero has no sign. -/
def displayNumber (x : Float) : String :=
  if x.isNaN || x.isInf || roundingLimit ≤ x.abs then numberText x
  else
    let rounded := roundToHundredths x
    if rounded == 0 then "0" else numberText rounded

/-- The text that is shown for a value. -/
def displayValue (value : String) : String :=
  let trimmed := trim value
  if !looksNumeric trimmed.toList then value
  else if !trimmed.toList.any fun c => c == '.' || c == 'e' || c == 'E' then trimmed
  else match readNumber? trimmed with
    | some x => displayNumber x
    | none => value

end Datacube
