import Datacube.Schema.Member

/-!
# Axes and positions

The result of a query is a grid of cells.  An axis of the grid is a sequence of positions, and
a position consists of members of different hierarchies, measures among them.

## Main definitions

* `AxisOrdinal` — which axis it is; the slicer has no index.
* `Position`, `Axis` — positions and axes.
* `Axis.ofPositions` — the axis with given positions, with its hierarchies and measures.
-/

namespace Datacube

/-! ### Ordinals -/

/-- Which axis of a query it is. -/
inductive AxisOrdinal where
  /-- An axis of the grid. -/
  | index (n : Nat)
  /-- The slicer, which restricts the cells of the grid. -/
  | slicer
  deriving DecidableEq, Repr

namespace AxisOrdinal

/-- The index of an axis of the grid. -/
def index? : AxisOrdinal → Option Nat
  | index n => some n
  | slicer => none

/-- The name of an axis. -/
def text : AxisOrdinal → String
  | index 0 => "COLUMNS"
  | index 1 => "ROWS"
  | index 2 => "PAGES"
  | index n => "AXIS(" ++ n.repr ++ ")"
  | slicer => "FILTER"

/-- The order of axes: by index, the slicer last. -/
def le : AxisOrdinal → AxisOrdinal → Bool
  | index m, index n => m ≤ n
  | index _, slicer => true
  | slicer, index _ => false
  | slicer, slicer => true

end AxisOrdinal

/-! ### Positions -/

/-- A place on an axis. -/
structure Position where
  /-- The index of the position on its axis. -/
  ordinal : Nat
  /-- The members, one for each hierarchy on the axis. -/
  members : List Member
  deriving DecidableEq, Repr

namespace Position

/-- The members that are not measures. -/
def dimensionMembers (p : Position) : List Member := p.members.filter fun m => !m.isMeasure

/-- The members that are measures. -/
def measures (p : Position) : List Member := p.members.filter Member.isMeasure

/-- The levels of the members that are not measures. -/
def levels (p : Position) : List String := p.dimensionMembers.map Member.level

end Position

/-! ### Axes -/

/-- The elements whose key does not occur before them. -/
def firstsBy {α β : Type} [BEq β] (key : α → β) : List α → List α
  | [] => []
  | a :: as => a :: (firstsBy key as).filter fun b => key b != key a

/-- An axis of a query result. -/
structure Axis where
  ordinal : AxisOrdinal
  positions : List Position
  /-- The unique names of the hierarchies on the axis, in the order of their first use. -/
  hierarchies : List String
  /-- The measures on the axis, in the order of their first use. -/
  measures : List Member
  deriving DecidableEq, Repr

namespace Axis

/-- All members of the positions of an axis, in order. -/
def membersOf (positions : List Position) : List Member := positions.flatMap Position.members

/-- The axis with the given positions.  Its hierarchies and its measures are those of its
members, each once; measures of the same unique name are the same. -/
def ofPositions (ordinal : AxisOrdinal) (positions : List Position) : Axis where
  ordinal
  positions
  hierarchies := firstsBy id ((membersOf positions).map Member.hierarchy)
  measures := firstsBy (fun m => m.label.uniqueName) ((membersOf positions).filter Member.isMeasure)

@[simp] theorem ordinal_ofPositions (ordinal : AxisOrdinal) (positions : List Position) :
    (ofPositions ordinal positions).ordinal = ordinal := rfl

@[simp] theorem positions_ofPositions (ordinal : AxisOrdinal) (positions : List Position) :
    (ofPositions ordinal positions).positions = positions := rfl

/-- The axis without positions. -/
def empty (ordinal : AxisOrdinal) : Axis := ofPositions ordinal []

/-- The number of positions. -/
def size (a : Axis) : Nat := a.positions.length

/-- The number of members other than measures on a position, taken from the first one. -/
def dimensionality (a : Axis) : Nat :=
  match a.positions with
  | [] => 0
  | first :: _ => first.dimensionMembers.length

end Axis

end Datacube
