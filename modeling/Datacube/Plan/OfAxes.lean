import Datacube.Axis
import Datacube.Plan.Basic
import Datacube.Provider

/-!
# The plan of a query

The axes and the slicer of a query determine a plan: project the measures that are used, dice by
the tuples of the slicer, slice the dimensions that are not used, and roll up to the levels of
the members on the axes.  All positions of an axis must have their members in the same levels,
because the plan has one roll-up signature.

## Main definitions

* `Provider.planOfAxes` — the plan.
* `Provider.projection`, `diceSignature`, `rollupSignature`, `slicedDimensions` — its parts.
* `checkUniform` — whether the positions of an axis agree in their levels.
-/

namespace Datacube

variable {m : Type → Type} [Monad m] [MonadExcept Fault m]

/-- The fault of a position whose members belong to other levels than those of the first. -/
def heterogeneousFault (axis : Axis) (expected : List String) (position : Position) : Fault :=
  .heterogeneousAxis axis.ordinal.text
    ("position " ++ position.ordinal.repr ++ " uses [" ++ ", ".intercalate position.levels
      ++ "] instead of [" ++ ", ".intercalate expected ++ "]")

/-- Whether all positions of an axis have their members in the levels `expected`. -/
def checkUniform (axis : Axis) (expected : List String) : m Unit :=
  match axis.positions.find? fun position => position.levels != expected with
  | none => pure ()
  | some position => throw (heterogeneousFault axis expected position)

/-- The positions of the slicer that have members other than measures. -/
def dicePositions (slicer : Option Axis) : List Position :=
  ((slicer.map Axis.positions).getD []).filter fun position => !position.dimensionMembers.isEmpty

namespace Provider

variable (p : Provider m)

/-- The measures on the axes and on the slicer, each once, or else the first measure of the
cube. -/
def projection (cube : Cube) (axes : List Axis) (slicer : Option Axis) : m (List Member) := do
  match firstsBy id ((axes ++ slicer.toList).flatMap Axis.measures) with
  | [] =>
    match ← p.measures cube with
    | [] => throw (.noMeasureAvailable cube.label.name)
    | first :: _ => pure [first]
  | measures => pure measures

/-- The hierarchies of the members on the first position of the slicer. -/
def diceSignature (cube : Cube) (slicer : Option Axis) : m (List Hierarchy) :=
  match dicePositions slicer with
  | [] => pure []
  | first :: _ => first.dimensionMembers.mapM fun member => p.hierarchy cube member.hierarchy

/-- The hierarchy and the level of a member. -/
def rollupOf (cube : Cube) (member : Member) : m (Hierarchy × Level) := do
  let hierarchy ← p.hierarchy cube member.hierarchy
  let level ← p.levelOf cube member
  return (hierarchy, level)

/-- The hierarchies and levels to which an axis rolls up: those of the members on its first
position, with which the other positions must agree. -/
def axisSignature (cube : Cube) (axis : Axis) : m (List (Hierarchy × Level)) :=
  match axis.positions with
  | [] => pure []
  | first :: _ => do
    checkUniform axis first.levels
    first.dimensionMembers.mapM (p.rollupOf cube)

/-- The hierarchies and levels to which all axes roll up. -/
def rollupSignature (cube : Cube) (axes : List Axis) : m (List (Hierarchy × Level)) := do
  return (← axes.mapM (p.axisSignature cube)).flatten

/-- The dimensions that neither hold the measures nor are rolled up. -/
def slicedDimensions (cube : Cube) (signature : List (Hierarchy × Level)) : m (List Dimension) := do
  return (← p.dimensions cube).filter fun d =>
    !d.isMeasures && d.label.uniqueName != measuresDimension
      && !signature.any fun (hierarchy, _) => hierarchy.dimension == d.label.uniqueName

/-- The plan of a query with the given axes and slicer. -/
def planOfAxes (cube : Cube) (axes : List Axis) (slicer : Option Axis) : m Plan := do
  let measures ← p.projection cube axes slicer
  let diced ← p.diceSignature cube slicer
  let signature ← p.rollupSignature cube axes
  let sliced ← p.slicedDimensions cube signature
  let tuples := (dicePositions slicer).map fun position => rowSetOf position.dimensionMembers
  return {
    cube := rowSetOf [cube]
    operators := [
      .rollup (rowSetOf (signature.map Prod.fst)) (rowSetOf (signature.map Prod.snd)),
      .slice (rowSetOf sliced),
      .dice (rowSetOf diced) tuples,
      .project (measureRowSet measures)] }

end Provider

end Datacube
