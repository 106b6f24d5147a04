import Datacube.Fault

/-!
# The grid of cells

The cells of a result are numbered in mixed radix: the radix of an axis is its number of
positions, and the first axis is the least significant one.  A grid without axes has a single
cell.

## Main definitions

* `cellCount` — the number of cells.
* `coordinatesOf` — the coordinates of an ordinal, one for each axis.
* `ordinalOf` — the ordinal of coordinates.
-/

namespace Datacube

/-- The number of cells of a grid whose axes have the given sizes. -/
def cellCount (sizes : List Nat) : Nat := sizes.foldr (· * ·) 1

@[simp] theorem cellCount_nil : cellCount [] = 1 := rfl

@[simp] theorem cellCount_cons (size : Nat) (sizes : List Nat) :
    cellCount (size :: sizes) = size * cellCount sizes := rfl

/-- The digits of an ordinal in mixed radix. -/
def digitsOf : List Nat → Nat → List Nat
  | [], _ => []
  | size :: sizes, ordinal => ordinal % size :: digitsOf sizes (ordinal / size)

@[simp] theorem length_digitsOf (sizes : List Nat) (ordinal : Nat) :
    (digitsOf sizes ordinal).length = sizes.length := by
  induction sizes generalizing ordinal with
  | nil => rfl
  | cons size sizes ih => simp [digitsOf, ih]

/-- The coordinates of the cell with the given ordinal. -/
def coordinatesOf (sizes : List Nat) (ordinal : Nat) : Outcome (List Nat) :=
  if ordinal < cellCount sizes then .ok (digitsOf sizes ordinal)
  else .error (.indexOutOfBounds ordinal (cellCount sizes))

/-- The number with the given digits in mixed radix; the first digit that is not below its
radix is a fault. -/
def numberOf : List Nat → List Nat → Outcome Nat
  | size :: sizes, coordinate :: coordinates =>
    if coordinate < size then
      (numberOf sizes coordinates).map fun n => coordinate + size * n
    else .error (.indexOutOfBounds coordinate size)
  | _, _ => .ok 0

/-- The ordinal of the cell with the given coordinates, one for each axis. -/
def ordinalOf (sizes coordinates : List Nat) : Outcome Nat :=
  if coordinates.length = sizes.length then numberOf sizes coordinates
  else .error (.indexOutOfBounds coordinates.length sizes.length)

end Datacube
