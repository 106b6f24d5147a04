import Datacube.Cells.Grid

/-!
# Grids in machine words

Cells are numbered in words of 64 bits.  One loop multiplies the sizes of the axes, one divides a
running remainder by them, and one adds up coordinates with a running factor.  A result that does
not fit a word either stops the computation or loses its upper bits; a division by zero stops it in
any case.

## Main definitions

* `WordFault`, `Overflow` — what stops a computation with words.
* `countInWords`, `coordinatesInWords`, `ordinalInWords` — the loops.
-/

namespace Datacube

/-! ### Words -/

/-- What stops a computation with words. -/
inductive WordFault where
  /-- A result does not fit a word. -/
  | overflow
  | divisionByZero
  deriving DecidableEq, Repr

/-- What becomes of a result that does not fit a word. -/
inductive Overflow where
  /-- It stops the computation. -/
  | trap
  /-- It loses its upper bits. -/
  | wrap
  deriving DecidableEq, Repr

/-- A result as a word; `exact` is the number and `word` are its lower bits. -/
def fitting (mode : Overflow) (exact : Nat) (word : UInt64) : Except WordFault UInt64 :=
  if mode = .trap ∧ UInt64.size ≤ exact then .error .overflow else .ok word

/-- The sum of two words. -/
def addWords (mode : Overflow) (x y : UInt64) : Except WordFault UInt64 :=
  fitting mode (x.toNat + y.toNat) (x + y)

/-- The product of two words. -/
def mulWords (mode : Overflow) (x y : UInt64) : Except WordFault UInt64 :=
  fitting mode (x.toNat * y.toNat) (x * y)

/-- The quotient and the remainder of two words. -/
def divideWords (x y : UInt64) : Except WordFault (UInt64 × UInt64) :=
  if y = 0 then .error .divisionByZero else .ok (x / y, x % y)

theorem fitting_of_lt {mode : Overflow} {exact : Nat} {word : UInt64} (h : exact < UInt64.size) :
    fitting mode exact word = .ok word :=
  if_neg fun hover => Nat.not_le.2 h hover.2

/-- A sum that fits a word is exact. -/
theorem addWords_of_lt (mode : Overflow) {x y : UInt64}
    (h : x.toNat + y.toNat < UInt64.size) :
    addWords mode x y = .ok (x + y) ∧ (x + y).toNat = x.toNat + y.toNat :=
  ⟨fitting_of_lt h, (UInt64.toNat_add x y).trans (Nat.mod_eq_of_lt h)⟩

/-- A product that fits a word is exact. -/
theorem mulWords_of_lt (mode : Overflow) {x y : UInt64}
    (h : x.toNat * y.toNat < UInt64.size) :
    mulWords mode x y = .ok (x * y) ∧ (x * y).toNat = x.toNat * y.toNat :=
  ⟨fitting_of_lt h, (UInt64.toNat_mul x y).trans (Nat.mod_eq_of_lt h)⟩

theorem fitting_eq_ok {mode : Overflow} {exact : Nat} {word result : UInt64}
    (h : fitting mode exact word = .ok result) : result = word := by
  rw [fitting] at h
  split at h
  · cases h
  · exact (Except.ok.inj h).symm

theorem fitting_ne_divisionByZero {mode : Overflow} {exact : Nat} {word : UInt64} :
    fitting mode exact word ≠ .error .divisionByZero := by
  rw [fitting]
  split <;> nofun

theorem divideWords_of_ne {x y : UInt64} (h : y ≠ 0) : divideWords x y = .ok (x / y, x % y) :=
  if_neg h

/-! ### Loops -/

variable (mode : Overflow)

/-- The number of cells: the sizes multiplied from the first axis to the last. -/
def countInWords (sizes : List UInt64) : Except WordFault UInt64 :=
  sizes.foldlM (mulWords mode) 1

/-- The coordinates that a remainder leaves along the axes. -/
def digitsInWords : List UInt64 → UInt64 → Except WordFault (List UInt64)
  | [], _ => .ok []
  | size :: sizes, remainder => do
    let (remainder, coordinate) ← divideWords remainder size
    return coordinate :: (← digitsInWords sizes remainder)

/-- The coordinates of the cell with the given ordinal. -/
def coordinatesInWords (sizes : List UInt64) (ordinal : UInt64) :
    Except WordFault (Outcome (List UInt64)) := do
  let count ← countInWords mode sizes
  if ordinal < count then return .ok (← digitsInWords sizes ordinal)
  else return .error (.indexOutOfBounds ordinal.toNat count.toNat)

/-- The ordinal after the axes that are left; `factor` is the number of cells along those
behind. -/
def numberInWords (ordinal factor : UInt64) :
    List UInt64 → List UInt64 → Except WordFault (Outcome UInt64)
  | size :: sizes, coordinate :: coordinates =>
    if coordinate < size then do
      let ordinal ← addWords mode ordinal (← mulWords mode coordinate factor)
      let factor ← mulWords mode factor size
      numberInWords ordinal factor sizes coordinates
    else return .error (.indexOutOfBounds coordinate.toNat size.toNat)
  | _, _ => return .ok ordinal

/-- The ordinal of the cell with the given coordinates, one for each axis. -/
def ordinalInWords (sizes coordinates : List UInt64) : Except WordFault (Outcome UInt64) :=
  if coordinates.length = sizes.length then numberInWords mode 0 1 sizes coordinates
  else return .error (.indexOutOfBounds coordinates.length sizes.length)

end Datacube
