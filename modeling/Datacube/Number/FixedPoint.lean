import Datacube.Number.Reading
import Datacube.Number.Shortest

/-!
# Fixed-point literals

Numeric literals of a query are decimals with eighteen places, held as an integer number of
units of the last place.  Arithmetic is done on floating-point numbers, into which a literal
is converted in lowest decimal terms.

## Main definitions

* `FixedPoint` — a literal.
* `FixedPoint.read?`, `FixedPoint.text` — from and to text.
* `FixedPoint.toFloat` — the number that a literal stands for.
-/

namespace Datacube

/-- A decimal with eighteen places. -/
structure FixedPoint where
  /-- The value in units of the eighteenth place. -/
  units : Int
  deriving DecidableEq, Repr

namespace FixedPoint

/-- The number of decimal places. -/
def places : Nat := 18

/-- The literal that a text denotes: an optional sign, then digits with an optional point.
Digits beyond the eighteenth place are dropped. -/
def read? (s : String) : Option FixedPoint :=
  let (negative, cs) := splitSign s.toList
  (Numeral.read? cs).map fun n =>
    let fraction := (n.fraction ++ List.replicate places '0').take places
    let units := (readDigitsFrom? 0 (n.whole ++ fraction)).getD 0
    ⟨if negative then -(units : Int) else units⟩

/-- The text of a literal: no zeros at the end of the fraction, no point in an integer. -/
def text (x : FixedPoint) : String :=
  let magnitude := placePoint places (digitsText x.units.natAbs)
  String.ofList (if x.units < 0 then '-' :: magnitude else magnitude)

/-- Removes up to `fuel` common factors of ten from a nonzero numerator and a power of ten. -/
def reduce : Nat → Int → Nat → Int × Nat
  | 0, units, scale => (units, scale)
  | fuel + 1, units, scale =>
    if units ≠ 0 ∧ scale ≠ 1 ∧ units % 10 = 0 then reduce fuel (units / 10) (scale / 10)
    else (units, scale)

/-- The number that a literal stands for: the numerator and the power of ten in lowest decimal
terms are rounded, and so is their quotient. -/
def toFloat (x : FixedPoint) : Float :=
  let (units, scale) := reduce places x.units (Nat.pow 10 places)
  Float.ofInt units / Float.ofNat scale

end FixedPoint

end Datacube
