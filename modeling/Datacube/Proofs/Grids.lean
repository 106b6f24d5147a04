import Datacube.Cells.Words
import Datacube.Proofs.CellAccess
import Mathlib.Algebra.BigOperators.Ring.List
import Mathlib.Tactic.Ring

/-!
# Ordinals and coordinates

The cells of a grid are numbered in mixed radix, with the first axis as the least significant
place.  Ordinals and coordinates determine each other, machine words suffice for the computation
whenever they suffice for the number of cells, and so a cell of a result is the same whether it is
found by its coordinates, by its ordinal, or by the positions of the axes.

## Main definitions

* `placeValue` — the ordinal of coordinates as a sum over the axes.
* `GridNumbering` — how the ordinals and the coordinates of a grid correspond.
* `WordGrid` — what the computation with words has to do with the numbers.
* `Axis.Counted` — whether every position of an axis has its index for an ordinal.

## Main results

* `gridNumbering` — **ordinals and coordinates are inverse** to each other.
* `numberInWords_eq`, `digitsInWords_eq`, `countInWords_eq` — the loops, with what they carry along.
* `wordGrid` — **words suffice** if they suffice for the number of cells.
* `Connection.cell_addressed` — **the three ways to a cell** of a result.
-/

namespace Datacube

/-! ### Numbers -/

theorem digitsOf_lt {sizes : List Nat} {ordinal : Nat} (h : ordinal < cellCount sizes) :
    List.Forall₂ (· < ·) (digitsOf sizes ordinal) sizes := by
  induction sizes generalizing ordinal with
  | nil => exact .nil
  | cons size sizes ih =>
    rw [cellCount_cons] at h
    have hpos : 0 < size := Nat.pos_of_mul_pos_right (Nat.zero_lt_of_lt h)
    refine .cons (Nat.mod_lt _ hpos) (ih ?_)
    exact Nat.div_lt_of_lt_mul h

theorem numberOf_digitsOf {sizes : List Nat} {ordinal : Nat} (h : ordinal < cellCount sizes) :
    numberOf sizes (digitsOf sizes ordinal) = .ok ordinal := by
  induction sizes generalizing ordinal with
  | nil =>
    rw [Nat.lt_one_iff.1 h]
    rfl
  | cons size sizes ih =>
    rw [cellCount_cons] at h
    have hpos : 0 < size := Nat.pos_of_mul_pos_right (Nat.zero_lt_of_lt h)
    rw [digitsOf, numberOf, if_pos (Nat.mod_lt _ hpos), ih (Nat.div_lt_of_lt_mul h)]
    exact congrArg Except.ok (Nat.mod_add_div ordinal size)

/-- The number of coordinates inside the grid is below the number of cells, and its digits are the
coordinates. -/
theorem numberOf_inside {coordinates sizes : List Nat} (h : List.Forall₂ (· < ·) coordinates sizes) :
    ∃ ordinal < cellCount sizes, numberOf sizes coordinates = .ok ordinal
      ∧ digitsOf sizes ordinal = coordinates := by
  induction h with
  | nil => exact ⟨0, Nat.zero_lt_one, rfl, rfl⟩
  | @cons coordinate size coordinates sizes hlt _ ih =>
    obtain ⟨rest, hrest, hnumber, hdigits⟩ := ih
    refine ⟨coordinate + size * rest, ?_, ?_, ?_⟩
    · calc coordinate + size * rest < size + size * rest := Nat.add_lt_add_right hlt _
        _ = size * (rest + 1) := by rw [Nat.mul_add, Nat.mul_one, Nat.add_comm]
        _ ≤ size * cellCount sizes := Nat.mul_le_mul_left size hrest
    · rw [numberOf, if_pos hlt, hnumber]
      rfl
    · have hpos : 0 < size := Nat.zero_lt_of_lt hlt
      rw [digitsOf, Nat.add_mul_mod_self_left, Nat.mod_eq_of_lt hlt,
        Nat.add_mul_div_left _ _ hpos, Nat.div_eq_of_lt hlt, Nat.zero_add, hdigits]

/-- The ordinal of coordinates: each counts for as many cells as there are along the axes before
its own. -/
def placeValue (sizes coordinates : List Nat) : Nat :=
  ((List.range sizes.length).map fun i => coordinates.getD i 0 * cellCount (sizes.take i)).sum

theorem placeValue_cons (size coordinate : Nat) (sizes coordinates : List Nat) :
    placeValue (size :: sizes) (coordinate :: coordinates)
      = coordinate + size * placeValue sizes coordinates := by
  rw [placeValue, List.length_cons, List.range_succ_eq_map, List.map_cons, List.map_map,
    List.sum_cons, placeValue, ← List.sum_map_mul_left]
  refine congrArg₂ (· + ·) (Nat.mul_one _) (congrArg List.sum (List.map_congr_left fun i _ => ?_))
  exact Nat.mul_left_comm _ _ _

theorem numberOf_eq_placeValue {coordinates sizes : List Nat}
    (h : List.Forall₂ (· < ·) coordinates sizes) :
    numberOf sizes coordinates = .ok (placeValue sizes coordinates) := by
  induction h with
  | nil => rfl
  | cons hlt _ ih =>
    rw [numberOf, if_pos hlt, ih, placeValue_cons]
    rfl

/-- How the ordinals and the coordinates of a grid correspond. -/
structure GridNumbering (sizes : List Nat) : Prop where
  /-- An ordinal below the number of cells has coordinates, one below the size of each axis, and is
  the ordinal of these. -/
  ofOrdinal : ∀ ordinal < cellCount sizes, ∃ coordinates,
    List.Forall₂ (· < ·) coordinates sizes ∧ coordinatesOf sizes ordinal = .ok coordinates
      ∧ ordinalOf sizes coordinates = .ok ordinal
  /-- Such coordinates have an ordinal below the number of cells, in which the first axis is the
  least significant place, and are the coordinates of this. -/
  ofCoordinates : ∀ coordinates, List.Forall₂ (· < ·) coordinates sizes →
    placeValue sizes coordinates < cellCount sizes
      ∧ ordinalOf sizes coordinates = .ok (placeValue sizes coordinates)
      ∧ coordinatesOf sizes (placeValue sizes coordinates) = .ok coordinates
  /-- Every other ordinal is reported. -/
  noOrdinal : ∀ ordinal, cellCount sizes ≤ ordinal →
    coordinatesOf sizes ordinal = .error (.indexOutOfBounds ordinal (cellCount sizes))
  /-- All other coordinates are reported. -/
  noCoordinates : ∀ coordinates, ¬ List.Forall₂ (· < ·) coordinates sizes →
    ∃ index size, ordinalOf sizes coordinates = .error (.indexOutOfBounds index size)

/-- **Ordinals and coordinates are inverse to each other**, whatever the sizes of the axes. -/
theorem gridNumbering (sizes : List Nat) : GridNumbering sizes where
  ofOrdinal ordinal h := by
    refine ⟨digitsOf sizes ordinal, digitsOf_lt h, if_pos h, ?_⟩
    rw [ordinalOf, if_pos (length_digitsOf sizes ordinal), numberOf_digitsOf h]
  ofCoordinates coordinates h := by
    obtain ⟨ordinal, hlt, hnumber, hdigits⟩ := numberOf_inside h
    obtain rfl := Except.ok.inj ((numberOf_eq_placeValue h).symm.trans hnumber)
    refine ⟨hlt, ?_, ?_⟩
    · rw [ordinalOf, if_pos h.length_eq, hnumber]
    · rw [coordinatesOf, if_pos hlt, hdigits]
  noOrdinal ordinal h := if_neg (Nat.not_lt.2 h)
  noCoordinates coordinates h := ordinalOf_eq_error h

/-! ### Words -/

/-- The numbers that words stand for. -/
def numbers (words : List UInt64) : List Nat := words.map UInt64.toNat

section

variable {mode : Overflow} {sizes : List UInt64}

theorem cellCount_pos {sizes : List UInt64} (hpos : ∀ size ∈ sizes, 0 < size) :
    0 < cellCount (numbers sizes) := by
  induction sizes with
  | nil => exact Nat.zero_lt_one
  | cons size sizes ih =>
    obtain ⟨hsize, hsizes⟩ := List.forall_mem_cons.1 hpos
    exact Nat.mul_pos (UInt64.lt_iff_toNat_lt.1 hsize) (ih hsizes)

/-- What is multiplied by positive sizes does not become smaller. -/
private theorem le_mul_cellCount (hpos : ∀ size ∈ sizes, 0 < size) (n : Nat) :
    n ≤ n * cellCount (numbers sizes) :=
  Nat.le_mul_of_pos_right n (cellCount_pos hpos)

/-- **The loop of the number of cells**: what was multiplied so far times what is left. -/
theorem countInWords_eq (hpos : ∀ size ∈ sizes, 0 < size) (mode : Overflow) (count : UInt64)
    (hfit : count.toNat * cellCount (numbers sizes) < UInt64.size) : ∃ result : UInt64,
      sizes.foldlM (mulWords mode) count = .ok result
        ∧ result.toNat = count.toNat * cellCount (numbers sizes) := by
  induction sizes generalizing count with
  | nil => exact ⟨count, rfl, (Nat.mul_one _).symm⟩
  | cons size sizes ih =>
    obtain ⟨-, hsizes⟩ := List.forall_mem_cons.1 hpos
    rw [numbers, List.map_cons, cellCount_cons, ← Nat.mul_assoc] at hfit ⊢
    obtain ⟨hmul, hexact⟩ := mulWords_of_lt mode ((le_mul_cellCount hsizes _).trans_lt hfit)
    obtain ⟨result, hresult, heq⟩ := ih hsizes (count * size) (by rwa [hexact])
    refine ⟨result, ?_, by rw [heq, hexact]; rfl⟩
    rw [List.foldlM_cons, hmul]
    exact hresult

/-- **The loop of the coordinates** divides by sizes that are not zero, and the remainder only
becomes smaller. -/
theorem digitsInWords_eq (hpos : ∀ size ∈ sizes, 0 < size) (remainder : UInt64) :
    ∃ result, digitsInWords sizes remainder = .ok result
      ∧ numbers result = digitsOf (numbers sizes) remainder.toNat := by
  induction sizes generalizing remainder with
  | nil => exact ⟨[], rfl, rfl⟩
  | cons size sizes ih =>
    obtain ⟨hsize, hsizes⟩ := List.forall_mem_cons.1 hpos
    obtain ⟨result, hresult, heq⟩ := ih hsizes (remainder / size)
    refine ⟨remainder % size :: result, ?_, ?_⟩
    · rw [digitsInWords, divideWords_of_ne (UInt64.ne_of_lt hsize).symm]
      dsimp only [bind, Except.bind]
      rw [hresult]
      rfl
    · rw [numbers, List.map_cons, UInt64.toNat_mod, ← numbers, heq, UInt64.toNat_div]
      rfl

/-- With one more coordinate the ordinal is still below the next factor. -/
private theorem add_mul_lt {ordinal coordinate factor size : Nat} (hordinal : ordinal < factor)
    (hlt : coordinate < size) : ordinal + coordinate * factor < factor * size := by
  calc ordinal + coordinate * factor
      < factor + coordinate * factor := Nat.add_lt_add_right hordinal _
    _ = factor * (coordinate + 1) := by rw [Nat.mul_add, Nat.mul_one, Nat.mul_comm, Nat.add_comm]
    _ ≤ factor * size := Nat.mul_le_mul_left _ hlt

/-- **A step of the loop of the ordinal** is exact if the next factor fits a word: the product, the
sum and that factor are computed one after the other. -/
private theorem exists_numberInWords_cons (mode : Overflow)
    {ordinal factor coordinate size : UInt64} (hordinal : ordinal.toNat < factor.toNat)
    (hlt : coordinate < size) (hfactor : factor.toNat * size.toNat < UInt64.size)
    (coordinates : List UInt64) : ∃ next : UInt64,
      next.toNat = ordinal.toNat + coordinate.toNat * factor.toNat
        ∧ next.toNat < (factor * size).toNat
        ∧ (factor * size).toNat = factor.toNat * size.toNat
        ∧ numberInWords mode ordinal factor (size :: sizes) (coordinate :: coordinates)
          = numberInWords mode next (factor * size) sizes coordinates := by
  have hnext : ordinal.toNat + coordinate.toNat * factor.toNat < factor.toNat * size.toNat :=
    add_mul_lt hordinal (UInt64.lt_iff_toNat_lt.1 hlt)
  obtain ⟨hmul, hproduct⟩ := mulWords_of_lt mode (x := coordinate) (y := factor)
    ((Nat.le_add_left _ _).trans_lt (hnext.trans hfactor))
  obtain ⟨hadd, hsum⟩ := addWords_of_lt mode (x := ordinal) (y := coordinate * factor)
    (by rw [hproduct]; exact hnext.trans hfactor)
  obtain ⟨hmul', hproduct'⟩ := mulWords_of_lt mode hfactor
  rw [hproduct] at hsum
  refine ⟨ordinal + coordinate * factor, hsum, by rwa [hsum, hproduct'], hproduct', ?_⟩
  rw [numberInWords, if_pos hlt, hmul]
  dsimp only [bind, Except.bind]
  rw [hadd]
  dsimp only
  rw [hmul']

/-- **The loop of the ordinal**: the ordinal so far is below the factor, and the factor times the
sizes that are left fits a word, so each sum and each product does. -/
theorem numberInWords_eq (hpos : ∀ size ∈ sizes, 0 < size) (mode : Overflow)
    (ordinal factor : UInt64) (hordinal : ordinal.toNat < factor.toNat)
    (hfit : factor.toNat * cellCount (numbers sizes) < UInt64.size)
    (coordinates : List UInt64) : ∃ result,
      numberInWords mode ordinal factor sizes coordinates = .ok result
        ∧ result.map UInt64.toNat = (numberOf (numbers sizes) (numbers coordinates)).map
          fun rest => ordinal.toNat + factor.toNat * rest := by
  induction sizes generalizing ordinal factor coordinates with
  | nil => exact ⟨.ok ordinal, by cases coordinates <;> rfl, rfl⟩
  | cons size sizes ih =>
    cases coordinates with
    | nil => exact ⟨.ok ordinal, rfl, rfl⟩
    | cons coordinate coordinates =>
      obtain ⟨-, hsizes⟩ := List.forall_mem_cons.1 hpos
      rw [numbers, List.map_cons, cellCount_cons, ← Nat.mul_assoc] at hfit
      have hfactor : factor.toNat * size.toNat < UInt64.size :=
        (le_mul_cellCount hsizes _).trans_lt hfit
      rw [numbers, List.map_cons, numbers, List.map_cons, numberOf]
      by_cases hlt : coordinate < size
      · obtain ⟨next, hnext, hless, hproduct, hstep⟩ :=
          exists_numberInWords_cons mode hordinal hlt hfactor coordinates
        obtain ⟨result, hresult, heq⟩ :=
          ih hsizes next (factor * size) hless (by rwa [hproduct]) coordinates
        refine ⟨result, hstep.trans hresult, ?_⟩
        rw [if_pos (UInt64.lt_iff_toNat_lt.1 hlt), heq, hnext, hproduct, numbers, numbers]
        cases numberOf (sizes.map UInt64.toNat) (coordinates.map UInt64.toNat) with
        | error e => rfl
        | ok rest =>
          refine congrArg Except.ok ?_
          dsimp only
          ring
      · rw [numberInWords, if_neg hlt, if_neg fun h => hlt (UInt64.lt_iff_toNat_lt.2 h)]
        exact ⟨_, rfl, rfl⟩

/-- A number of cells that is computed is zero if the size of an axis is. -/
theorem eq_zero_of_countInWords (hzero : 0 ∈ sizes) {count result : UInt64}
    (h : sizes.foldlM (mulWords mode) count = .ok result) : result = 0 := by
  -- once the product is zero, it stays so
  have hstays : ∀ (sizes : List UInt64) (result : UInt64),
      sizes.foldlM (mulWords mode) 0 = .ok result → result = 0 := by
    intro sizes
    induction sizes with
    | nil => exact fun result h => (Except.ok.inj h).symm
    | cons size sizes ih =>
      intro result h
      rw [List.foldlM_cons, mulWords, fitting_of_lt (by simp [UInt64.size])] at h
      exact ih result (by rwa [UInt64.zero_mul] at h)
  induction sizes generalizing count with
  | nil => cases hzero
  | cons size sizes ih =>
    rw [List.foldlM_cons] at h
    cases hproduct : mulWords mode count size with
    | error e =>
      rw [hproduct] at h
      cases h
    | ok product =>
      rw [hproduct] at h
      rcases List.mem_cons.1 hzero with rfl | hzero
      · rw [fitting_eq_ok hproduct, UInt64.mul_zero] at h
        exact hstays sizes result h
      · exact ih hzero h

theorem countInWords_ne_divisionByZero {count : UInt64} :
    sizes.foldlM (mulWords mode) count ≠ .error .divisionByZero := by
  induction sizes generalizing count with
  | nil => nofun
  | cons size sizes ih =>
    rw [List.foldlM_cons]
    cases hproduct : mulWords mode count size with
    | error e =>
      intro h
      cases h
      exact fitting_ne_divisionByZero hproduct
    | ok product => exact ih

theorem digitsInWords_ne_divisionByZero (hzero : 0 ∉ sizes) (remainder : UInt64) :
    digitsInWords sizes remainder ≠ .error .divisionByZero := by
  have hpos : ∀ size ∈ sizes, 0 < size := by
    intro size hsize
    refine UInt64.pos_iff_ne_zero.2 ?_
    rintro rfl
    exact hzero hsize
  obtain ⟨result, hresult, -⟩ := digitsInWords_eq hpos remainder
  rw [hresult]
  nofun

theorem numberInWords_ne_divisionByZero {ordinal factor : UInt64} (coordinates : List UInt64) :
    numberInWords mode ordinal factor sizes coordinates ≠ .error .divisionByZero := by
  induction sizes generalizing ordinal factor coordinates with
  | nil => cases coordinates <;> nofun
  | cons size sizes ih =>
    cases coordinates with
    | nil => nofun
    | cons coordinate coordinates =>
      rw [numberInWords]
      split
      · cases hproduct : mulWords mode coordinate factor with
        | error e =>
          rintro ⟨⟩
          exact fitting_ne_divisionByZero hproduct
        | ok product =>
          dsimp only [bind, Except.bind]
          cases hsum : addWords mode ordinal product with
          | error e =>
            rintro ⟨⟩
            exact fitting_ne_divisionByZero hsum
          | ok sum =>
            dsimp only
            cases hnext : mulWords mode factor size with
            | error e =>
              rintro ⟨⟩
              exact fitting_ne_divisionByZero hnext
            | ok next => exact ih coordinates
      · nofun

/-- A grid with an empty axis has no ordinals, and no other one has a size that is zero. -/
theorem coordinatesInWords_ne_divisionByZero (ordinal : UInt64) :
    coordinatesInWords mode sizes ordinal ≠ .error .divisionByZero := by
  rw [coordinatesInWords]
  cases hcount : countInWords mode sizes with
  | error e =>
    rintro ⟨⟩
    exact countInWords_ne_divisionByZero hcount
  | ok count =>
    dsimp only [bind, Except.bind]
    split
    · rename_i hlt
      have hzero : 0 ∉ sizes := by
        intro hzero
        rw [eq_zero_of_countInWords hzero hcount] at hlt
        exact UInt64.not_lt_zero hlt
      cases hdigits : digitsInWords sizes ordinal with
      | error e =>
        rintro ⟨⟩
        exact digitsInWords_ne_divisionByZero hzero ordinal hdigits
      | ok digits => nofun
    · nofun

/-! ### Words that suffice for the number of cells -/

section

variable (hpos : ∀ size ∈ sizes, 0 < size) (mode : Overflow)
  (hfit : cellCount (numbers sizes) < UInt64.size)

include hpos hfit

theorem exists_countInWords :
    ∃ count, countInWords mode sizes = .ok count ∧ count.toNat = cellCount (numbers sizes) := by
  obtain ⟨count, hcount, hexact⟩ :=
    countInWords_eq hpos mode 1 (by rwa [UInt64.toNat_one, Nat.one_mul])
  exact ⟨count, hcount, hexact.trans (Nat.one_mul _)⟩

theorem exists_coordinatesInWords (ordinal : UInt64) : ∃ result,
    coordinatesInWords mode sizes ordinal = .ok result
      ∧ result.map numbers = coordinatesOf (numbers sizes) ordinal.toNat := by
  obtain ⟨count, hcount, hexact⟩ := exists_countInWords hpos mode hfit
  obtain ⟨digits, hdigits, heq⟩ := digitsInWords_eq hpos ordinal
  rw [coordinatesInWords, hcount, coordinatesOf, ← hexact]
  dsimp only [bind, Except.bind]
  by_cases hlt : ordinal < count
  · rw [if_pos hlt, if_pos (UInt64.lt_iff_toNat_lt.1 hlt), hdigits]
    exact ⟨.ok digits, rfl, congrArg Except.ok heq⟩
  · rw [if_neg hlt, if_neg fun h => hlt (UInt64.lt_iff_toNat_lt.2 h)]
    exact ⟨_, rfl, rfl⟩

theorem exists_ordinalInWords (coordinates : List UInt64) : ∃ result,
    ordinalInWords mode sizes coordinates = .ok result
      ∧ result.map UInt64.toNat = ordinalOf (numbers sizes) (numbers coordinates) := by
  rw [ordinalInWords, ordinalOf, numbers, List.length_map, numbers, List.length_map]
  by_cases hlength : coordinates.length = sizes.length
  · rw [if_pos hlength, if_pos hlength]
    obtain ⟨result, hresult, heq⟩ := numberInWords_eq hpos mode 0 1 Nat.zero_lt_one
      (by rwa [UInt64.toNat_one, Nat.one_mul]) coordinates
    refine ⟨result, hresult, heq.trans ?_⟩
    -- the ordinal begins with zero and the factor with one
    change Except.map _ (numberOf _ _) = numberOf (numbers sizes) (numbers coordinates)
    cases numberOf (numbers sizes) (numbers coordinates) with
    | error e => rfl
    | ok number => exact congrArg Except.ok ((Nat.zero_add _).trans (Nat.one_mul _))
  · rw [if_neg hlength, if_neg hlength]
    exact ⟨_, rfl, rfl⟩

end

end

/-- What the computation with words has to do with the numbers, for given sizes of axes. -/
structure WordGrid (mode : Overflow) (sizes : List UInt64) : Prop where
  /-- The remainder is never divided by zero. -/
  coordinates_defined : ∀ ordinal,
    coordinatesInWords mode sizes ordinal ≠ .error .divisionByZero
  ordinal_defined : ∀ coordinates, ordinalInWords mode sizes coordinates ≠ .error .divisionByZero
  /-- If no axis is empty and words suffice for the number of cells, they suffice throughout, and
  the results are those of the numbers. -/
  agrees : (∀ size ∈ sizes, 0 < size) → cellCount (numbers sizes) < UInt64.size →
    (∃ count, countInWords mode sizes = .ok count ∧ count.toNat = cellCount (numbers sizes))
      ∧ (∀ ordinal, ∃ result, coordinatesInWords mode sizes ordinal = .ok result
        ∧ result.map numbers = coordinatesOf (numbers sizes) ordinal.toNat)
      ∧ ∀ coordinates, ∃ result, ordinalInWords mode sizes coordinates = .ok result
        ∧ result.map UInt64.toNat = ordinalOf (numbers sizes) (numbers coordinates)

/-- **Words suffice for ordinals and coordinates** if they suffice for the number of cells, and
there is no division by zero in any case. -/
theorem wordGrid (mode : Overflow) (sizes : List UInt64) : WordGrid mode sizes where
  coordinates_defined := coordinatesInWords_ne_divisionByZero
  ordinal_defined coordinates := by
    rw [ordinalInWords]
    split
    · exact numberInWords_ne_divisionByZero coordinates
    · nofun
  agrees hpos hfit := ⟨exists_countInWords hpos mode hfit, exists_coordinatesInWords hpos mode hfit,
    exists_ordinalInWords hpos mode hfit⟩

/-! ### Positions -/

/-- Whether every position of an axis has its index for an ordinal. -/
def Axis.Counted (axis : Axis) : Prop :=
  ∀ (i : Nat) (position : Position), axis.positions[i]? = some position → position.ordinal = i

theorem Value.ordinal_of_toPosition {ordinal : Nat} {v : Value} {position : Position}
    (h : v.toPosition ordinal = .ok position) : position.ordinal = ordinal := by
  unfold toPosition at h
  split at h
  · cases h
    rfl
  · obtain ⟨members, -, rfl⟩ := Outcome.map_eq_ok.1 h
    rfl
  · cases h

/-- The positions that a value describes are counted from zero. -/
theorem Value.counted_of_toAxis {ordinal : AxisOrdinal} {v : Value} {axis : Axis}
    (h : v.toAxis ordinal = .ok axis) : axis.Counted := by
  obtain ⟨positions, hpositions, rfl⟩ := Outcome.map_eq_ok.1 h
  have hall := List.forall₂_iff_get.1 (Outcome.mapM_eq_ok.1 hpositions)
  intro i position hi
  obtain ⟨hlt, rfl⟩ := List.getElem?_eq_some_iff.1 hi
  have hlt' : i < v.elements.zipIdx.length := hall.1 ▸ hlt
  have hposition := hall.2 i hlt' hlt
  rw [List.get_eq_getElem, List.getElem_zipIdx] at hposition
  exact (ordinal_of_toPosition hposition).trans (Nat.zero_add i)

/-- The positions of the axes of an executed statement are counted. -/
theorem Store.counted_of_execute {σ : Type} (s : Store σ) (statement : Select Expr) :
    Session.Ensures (fun _ => True) (s.execute statement) fun cells =>
      ∀ axis ∈ cells.axes, axis.Counted := by
  refine (Session.assurance σ _).mono (s.evaluated_of_execute statement) fun cells hcells => ?_
  intro axis haxis
  obtain ⟨ordinal, v, h⟩ := hcells.2 axis haxis
  exact Value.counted_of_toAxis h

/-- Positions that are counted have the coordinates for ordinals at which they are. -/
theorem map_ordinal_positionsAt {axes : List Axis} (hcounted : ∀ axis ∈ axes, axis.Counted)
    {coordinates : List Nat} (hc : List.Forall₂ (· < ·) coordinates (axes.map Axis.size)) :
    (positionsAt axes coordinates).map Position.ordinal = coordinates := by
  induction axes generalizing coordinates with
  | nil =>
    cases hc
    rfl
  | cons axis axes ih =>
    obtain ⟨haxis, haxes⟩ := List.forall_mem_cons.1 hcounted
    rw [List.map_cons] at hc
    cases hc with
    | @cons coordinate _ coordinates _ hlt hc =>
      have hlt' : coordinate < axis.positions.length := hlt
      have hcons : positionsAt (axis :: axes) (coordinate :: coordinates)
          = axis.positions[coordinate] :: positionsAt axes coordinates := by
        simp only [positionsAt, List.zip_cons_cons, List.filterMap_cons,
          List.getElem?_eq_getElem hlt']
      rw [hcons, List.map_cons, haxis _ _ (List.getElem?_eq_getElem hlt'), ih haxes hc]

/-- **The three ways to a cell** inside the grid lead to the same outcome, and what is found has
the ordinal and the coordinates that it was looked up by. -/
theorem CellSet.cell_of_counted {s : CellSet} (hcounted : ∀ axis ∈ s.axes, axis.Counted)
    {coordinates : List Nat} (hc : List.Forall₂ (· < ·) coordinates s.sizes) :
    s.cellByOrdinal (placeValue s.sizes coordinates) = s.cell coordinates
      ∧ s.cellByPositions (s.positionsAt coordinates) = s.cell coordinates
      ∧ ∀ cell, s.cell coordinates = .ok cell →
        cell.ordinal = placeValue s.sizes coordinates ∧ cell.coordinates = coordinates := by
  obtain ⟨-, hordinal, hcoordinates⟩ := (gridNumbering s.sizes).ofCoordinates coordinates hc
  refine ⟨?_, ?_, ?_⟩
  · rw [cellByOrdinal, hcoordinates]
    rfl
  · rw [cellByPositions, positionsAt_eq, map_ordinal_positionsAt hcounted hc]
  · intro cell hcell
    obtain ⟨ordinal, hordinal', hcell⟩ := Outcome.bind_eq_ok.1 hcell
    obtain rfl := Except.ok.inj (hordinal.symm.trans hordinal')
    obtain ⟨measure, -, hcell⟩ := Outcome.bind_eq_ok.1 hcell
    cases hcell
    exact ⟨rfl, rfl⟩

/-! ### Results of statements -/

namespace Connection

variable {σ : Type} (config : Config) (engine : Engine σ) (state : σ) (calls : List Call)

/-- **Ordinals and coordinates are inverse, and lead to the same cells.**  In a grid of any sizes,
the ordinals below the number of cells and the coordinates below the sizes determine each other,
and all others are reported; with words for numbers nothing is ever divided by zero, and nothing
overflows if no axis is empty and the number of cells fits a word.  In the result of a statement,
after any uses of a connection to any engine, a cell inside the grid is the same by its coordinates,
by its ordinal and by the positions of the axes. -/
theorem cell_addressed :
    (∀ sizes, GridNumbering sizes)
      ∧ (∀ mode sizes, WordGrid mode sizes)
      ∧ ∀ (statement : Select Expr) (s : CellSet),
        ((Connection.after { config, engine, state } calls).run (·.execute statement)).1 = .ok s →
        ∀ coordinates, List.Forall₂ (· < ·) coordinates s.sizes →
          ordinalOf s.sizes coordinates = .ok (placeValue s.sizes coordinates)
            ∧ s.cellByOrdinal (placeValue s.sizes coordinates) = s.cell coordinates
            ∧ s.cellByPositions (s.positionsAt coordinates) = s.cell coordinates
            ∧ ∀ cell, s.cell coordinates = .ok cell →
              cell.ordinal = placeValue s.sizes coordinates ∧ cell.coordinates = coordinates := by
  refine ⟨gridNumbering, wordGrid, ?_⟩
  intro statement s h coordinates hc
  have hcounted : ∀ axis ∈ s.axes, axis.Counted :=
    (ensures_run (Store.counted_of_execute _ statement) trivial).2 s h
  exact ⟨((gridNumbering s.sizes).ofCoordinates coordinates hc).2.1,
    CellSet.cell_of_counted hcounted hc⟩

set_option maxRecDepth 100000 in
/-- A cell of the sales of Germany, and the last cell of a grid that nearly fills a word. -/
theorem cell_addressed_sales :
    ((salesConnection.after [.cubes, .execute salesStatement]).run (·.execute salesStatement)).1
        = .ok salesCells
      ∧ (∃ cell, salesCells.cell [0, 1] = .ok cell ∧ cell.ordinal = 2)
      ∧ salesCells.cellByOrdinal 2 = salesCells.cell [0, 1]
      ∧ salesCells.cellByPositions (salesCells.positionsAt [0, 1]) = salesCells.cell [0, 1]
      ∧ ∃ result, ordinalInWords .trap [4294967296, 4294967295] [4294967295, 4294967294]
          = .ok result
        ∧ result.map UInt64.toNat = .ok 18446744069414584319 := by
  have hexecute : ((salesConnection.after [.cubes, .execute salesStatement]).run
      (·.execute salesStatement)).1 = .ok salesCells := Outcome.eq_ok_get isOk_execute_sales
  obtain ⟨hinside, hvalue, hcell⟩ : List.Forall₂ (· < ·) [0, 1] salesCells.sizes
      ∧ placeValue salesCells.sizes [0, 1] = 2 ∧ (salesCells.cell [0, 1]).isOk = true := by
    decide +kernel
  obtain ⟨-, hwords, hcells⟩ := cell_addressed _ _ _ _
  obtain ⟨-, hordinal, hpositions, hfound⟩ := hcells _ _ hexecute _ hinside
  rw [hvalue] at hordinal hfound
  refine ⟨hexecute, ⟨_, Outcome.eq_ok_get hcell, ?_⟩, hordinal, hpositions, ?_⟩
  · exact (hfound _ (Outcome.eq_ok_get hcell)).1
  · have hpos : ∀ size ∈ [(4294967296 : UInt64), 4294967295], 0 < size :=
      List.forall_mem_cons.2 ⟨by decide, List.forall_mem_singleton.2 (by decide)⟩
    obtain ⟨-, -, hnumber⟩ := (hwords .trap _).agrees hpos (by decide)
    exact hnumber [4294967295, 4294967294]

end Connection

end Datacube
