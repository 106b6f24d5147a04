import Datacube.Cells.Cache
import Datacube.Cells.Grid
import Datacube.Plan.Basic
import Datacube.Query.Evaluate

/-!
# Cell sets

The result of a query: its axes and, for every cell of the grid, the value of a measure.  The
measure of a cell is the one on its positions, or else the one of the slicer, or else the first
one of the plan.

## Main definitions

* `CellSet` — the result of a query; `CellSet.ofResult` — from the result of its plan.
* `CellSet.cell`, `cellByOrdinal`, `cellByPositions` — access to cells.
-/

namespace Datacube

/-- A cell. -/
structure Cell where
  ordinal : Nat
  /-- A coordinate for each axis. -/
  coordinates : List Nat
  /-- The value, absent if there is no observation. -/
  value : Option CellValue
  deriving DecidableEq, Repr

namespace Cell

/-- The value as the engine returned it. -/
def text? (c : Cell) : Option String := c.value.map CellValue.value

/-- The text that is shown, empty without a value. -/
def formatted (c : Cell) : String := (c.value.map CellValue.formatted).getD ""

/-- The value as a number, if it is one. -/
def number? (c : Cell) : Option Float := c.text?.bind fun s => readNumber? (trim s)

/-- Whether there is no value. -/
def isEmpty (c : Cell) : Bool := c.value.isNone

end Cell

/-- The result of a query. -/
structure CellSet where
  cube : Cube
  /-- The axes in the order of their ordinals. -/
  axes : List Axis
  /-- The slicer, without positions if the query has none. -/
  slicer : Axis
  /-- The measures of the plan, in order. -/
  measures : List Member
  /-- The plan that was executed. -/
  plan : Plan
  cache : CellCache
  deriving DecidableEq

namespace CellSet

/-- The number of key columns of a result: that of the members on positions of the axes, measures
left out. -/
def keyWidth (axes : List Axis) : Nat :=
  axes.foldr (fun axis width => axis.dimensionality + width) 0

/-- The cell set of a query, given the result of its plan. -/
def ofResult (query : Query) (plan : Plan) (result : RowSet) : Outcome CellSet := do
  let measures ← match plan.projectedMeasures? with
    | some rows => readMeasures rows
    | none => pure []
  let cache ← CellCache.ofResult result (keyWidth query.axes) measures.length
  return {
    cube := query.cube
    axes := query.axes
    slicer := query.slicer.getD (Axis.empty .slicer)
    measures, plan, cache }

variable (s : CellSet)

/-- The sizes of the axes. -/
def sizes : List Nat := s.axes.map Axis.size

/-- The number of cells. -/
def count : Nat := cellCount s.sizes

/-- The positions at coordinates. -/
def positionsAt (coordinates : List Nat) : List Position :=
  (s.axes.zip coordinates).filterMap fun (axis, coordinate) => axis.positions[coordinate]?

/-- The canonical names of the members on positions, measures left out. -/
def keyOf (positions : List Position) : CellKey :=
  (positions.flatMap Position.dimensionMembers).map fun member =>
    canonicalName member.label.uniqueName

/-- The unique name of the measure on positions or else of the slicer.  Two measures on the
positions are a fault. -/
def measureName? (positions : List Position) : Outcome (Option String) :=
  match positions.flatMap Position.measures with
  | [] => .ok (s.slicer.measures.head?.map fun measure => measure.label.uniqueName)
  | [measure] => .ok (some measure.label.uniqueName)
  | first :: second :: _ =>
    .error (.multipleMeasures (first.label.uniqueName ++ " and " ++ second.label.uniqueName))

/-- The index of the measure on positions among the measures of the plan. -/
def measureIndex (positions : List Position) : Outcome Nat := do
  match ← s.measureName? positions with
  | some name =>
    match s.measures.findIdx? fun measure => measure.label.uniqueName == name with
    | some index => .ok index
    | none => .error (.unresolvedIdentifier name)
  | none =>
    if s.measures.isEmpty then .error (.noMeasureAvailable s.cube.label.name) else .ok 0

/-- The cell at coordinates, one for each axis. -/
def cell (coordinates : List Nat) : Outcome Cell := do
  let ordinal ← ordinalOf s.sizes coordinates
  let positions := s.positionsAt coordinates
  let measure ← s.measureIndex positions
  return ⟨ordinal, coordinates, s.cache.get? (keyOf positions) measure⟩

/-- The cell with the given ordinal. -/
def cellByOrdinal (ordinal : Nat) : Outcome Cell := do
  s.cell (← coordinatesOf s.sizes ordinal)

/-- The cell at positions, one for each axis. -/
def cellByPositions (positions : List Position) : Outcome Cell :=
  s.cell (positions.map Position.ordinal)

end CellSet

end Datacube
