/-!
# The shortest text of a number

Numbers are binary64 floating-point values.  A finite value is written with the fewest
significant decimal digits that read back to it, the nearest such decimal if there are
several, always positionally: no exponent, and no point in an integral value.

The digits are chosen by exact arithmetic.  The reals that round to a value `m * 2 ^ q`
form an interval around it; its ends belong to it if and only if `m` is even.  For one,
two, … digits the two neighbours of the value on the grid of decimals with that many
digits are tried, and the first grid that meets the interval decides.

## Main definitions

* `Magnitude` — the absolute value of a finite number, decoded from its bits.
* `Decimal` — an integer times a power of ten.
* `Magnitude.shortest` — the shortest decimal that reads back to a magnitude.
* `numberText` — the text of a number.
-/

namespace Datacube

/-! ### Binary magnitudes -/

/-- The absolute value of a finite binary64 number, `significand * 2 ^ exponent`. -/
structure Magnitude where
  /-- The integral significand. -/
  significand : Nat
  /-- The power of two that scales it. -/
  exponent : Int
  /-- Whether the next smaller magnitude is only half as far away as the next greater one. -/
  narrowBelow : Bool
  deriving DecidableEq, Repr

/-- The magnitude of the finite number with the given bits. -/
def Magnitude.ofBits (bits : UInt64) : Magnitude :=
  let biased : Nat := bits.toNat / Nat.pow 2 52 % Nat.pow 2 11
  let fraction : Nat := bits.toNat % Nat.pow 2 52
  if biased = 0 then ⟨fraction, -1074, false⟩
  else ⟨Nat.pow 2 52 + fraction, (biased : Int) - 1075, fraction == 0 && 1 < biased⟩

/-- The magnitude of a finite number. -/
def Magnitude.ofFloat (x : Float) : Magnitude := .ofBits x.toBits

/-- Whether the sign bit of a number is set. -/
def isNegative (x : Float) : Bool := Nat.pow 2 63 ≤ x.toBits.toNat

/-- A magnitude rounded to an integer; halves go up. -/
def Magnitude.round (x : Magnitude) : Nat :=
  if 0 ≤ x.exponent then x.significand * Nat.pow 2 x.exponent.toNat
  else
    let unit := Nat.pow 2 (-x.exponent).toNat
    (2 * x.significand + unit) / (2 * unit)

/-! ### Decimals -/

/-- The decimal `digits * 10 ^ exponent`. -/
structure Decimal where
  /-- The significant digits. -/
  digits : Nat
  /-- The power of ten that scales them. -/
  exponent : Int
  deriving DecidableEq, Repr

/-- Compares `a * 10 ^ i` with `n * 2 ^ j`. -/
def compareScaled (a : Nat) (i : Int) (n : Nat) (j : Int) : Ordering :=
  compare (a * Nat.pow 10 i.toNat * Nat.pow 2 (-j).toNat)
    (n * Nat.pow 2 j.toNat * Nat.pow 10 (-i).toNat)

/-- Whether a decimal lies in the interval of the reals that round to `x`. -/
def Decimal.readsBackTo (d : Decimal) (x : Magnitude) : Bool :=
  let low := if x.narrowBelow then 4 * x.significand - 1 else 4 * x.significand - 2
  let high := 4 * x.significand + 2
  let fromLow := compareScaled d.digits d.exponent low (x.exponent - 2)
  let toHigh := compareScaled d.digits d.exponent high (x.exponent - 2)
  let closed := x.significand % 2 == 0
  (fromLow == .gt || closed && fromLow == .eq) && (toHigh == .lt || closed && toHigh == .eq)

/-- The number of digits in front of the decimal point: the least `k` with `x < 10 ^ k`, for
`x` other than zero.  The binary logarithm gives it up to two. -/
def Magnitude.integralDigits (x : Magnitude) : Int :=
  let estimate := (x.significand.log2 + x.exponent) * 30103 / 100000
  let below (k : Int) := compareScaled 1 k x.significand x.exponent == .gt
  if below estimate then estimate
  else if below (estimate + 1) then estimate + 1
  else estimate + 2

/-- The greatest multiple of `10 ^ i` that is not above `x`, in units of `10 ^ i`. -/
def Magnitude.floorOnGrid (x : Magnitude) (i : Int) : Nat :=
  (x.significand * Nat.pow 2 x.exponent.toNat * Nat.pow 10 (-i).toNat)
    / (Nat.pow 2 (-x.exponent).toNat * Nat.pow 10 i.toNat)

/-- The decimal with the grid `10 ^ i` that reads back to `x`, if there is one: the nearer of
two, and the upper one of two that are equally near. -/
def Magnitude.onGrid? (x : Magnitude) (i : Int) : Option Decimal :=
  let lower : Decimal := ⟨x.floorOnGrid i, i⟩
  let upper : Decimal := ⟨x.floorOnGrid i + 1, i⟩
  match lower.readsBackTo x, upper.readsBackTo x with
  | true, true =>
    if compareScaled (2 * lower.digits + 1) i x.significand (x.exponent + 1) == .gt then some lower
    else some upper
  | true, false => some lower
  | false, true => some upper
  | false, false => none

/-- The shortest decimal that reads back to `x`.  Seventeen digits always suffice. -/
def Magnitude.shortest (x : Magnitude) : Decimal :=
  let k := x.integralDigits
  ((List.range 17).findSome? fun n : Nat => x.onGrid? (k - (n + 1 : Nat))).getD
    ⟨x.floorOnGrid (k - 17), k - 17⟩

/-! ### Text -/

/-- The decimal digits of a natural number. -/
def digitsText (n : Nat) : List Char := Nat.toDigits 10 n

/-- The characters without the zeros at the end. -/
def dropTrailingZeros (cs : List Char) : List Char :=
  (cs.reverse.dropWhile (· == '0')).reverse

/-- Digits with a point in front of the last `places` of them.  Zeros at the end of the
fraction are dropped, and so is the point of an integral value. -/
def placePoint (places : Nat) (digits : List Char) : List Char :=
  let padded := List.replicate (places + 1 - digits.length) '0' ++ digits
  let whole := padded.take (padded.length - places)
  match dropTrailingZeros (padded.drop (padded.length - places)) with
  | [] => whole
  | fraction => whole ++ '.' :: fraction

/-- A decimal in positional notation. -/
def Decimal.text (d : Decimal) : List Char :=
  if 0 ≤ d.exponent then digitsText (d.digits * Nat.pow 10 d.exponent.toNat)
  else placePoint (-d.exponent).toNat (digitsText d.digits)

/-- The text of a magnitude. -/
def Magnitude.text (x : Magnitude) : List Char :=
  if x.significand = 0 then ['0'] else x.shortest.text

/-- The text of a number: a minus sign if the sign bit is set, then its magnitude.  What is no
number has no sign. -/
def numberText (x : Float) : String :=
  if x.isNaN then "NaN"
  else
    let magnitude := if x.isInf then ['i', 'n', 'f'] else (Magnitude.ofFloat x).text
    String.ofList (if isNegative x then '-' :: magnitude else magnitude)

end Datacube
