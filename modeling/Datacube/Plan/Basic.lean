import Datacube.RowSet
import Datacube.Schema.Column

/-!
# Plans

A plan is a chain of operators on the observations of a cube.  The parameters of the operators
are row sets that describe schema objects.

## Main definitions

* `Operator` — an operator with its parameters.
* `Plan` — a cube and the operators on it, the outermost one first.
* `Plan.projectedMeasures?`, `Plan.rollupLevels?` — the parameters that shape the result.
* `Plan.text` — the text of a plan, one operator a line.
-/

namespace Datacube

/-- An operator of a plan. -/
inductive Operator where
  /-- Restricts the measures to the given ones. -/
  | project (measures : RowSet)
  /-- Keeps the observations below one of the tuples.  Every tuple has one member for each of the
  hierarchies.  Without tuples every observation is kept. -/
  | dice (hierarchies : RowSet) (tuples : List RowSet)
  /-- Aggregates over all members of the given dimensions. -/
  | slice (dimensions : RowSet)
  /-- Groups by the members of the levels, each of which belongs to the hierarchy of the same
  place. -/
  | rollup (hierarchies levels : RowSet)
  deriving DecidableEq

/-- Operators on the observations of a cube. -/
structure Plan where
  /-- The row of the cube. -/
  cube : RowSet
  /-- The operators, the outermost one first. -/
  operators : List Operator
  deriving DecidableEq

/-- The name of an operator. -/
def Operator.name : Operator → String
  | project .. => "Projection"
  | dice .. => "Dice"
  | slice .. => "Slice"
  | rollup .. => "Rollup"

namespace Plan

/-- The plan without operators. -/
def ofCube (cube : RowSet) : Plan := ⟨cube, []⟩

/-- A plan with one more operator around it. -/
def wrap (p : Plan) (operator : Operator) : Plan := { p with operators := operator :: p.operators }

/-- What the outermost operator works on. -/
def input? (p : Plan) : Option Plan :=
  match p.operators with
  | [] => none
  | _ :: inner => some { p with operators := inner }

/-- The names of the operators, the outermost one first and the cube last. -/
def names (p : Plan) : List String := p.operators.map Operator.name ++ ["BaseCube"]

/-- The measures of the outermost projection. -/
def projectedMeasures? (p : Plan) : Option RowSet :=
  p.operators.findSome? fun
    | .project measures => some measures
    | _ => none

/-- The levels of the outermost roll-up. -/
def rollupLevels? (p : Plan) : Option RowSet :=
  p.operators.findSome? fun
    | .rollup _ levels => some levels
    | _ => none

@[simp] theorem input?_wrap (p : Plan) (operator : Operator) : (p.wrap operator).input? = some p :=
  rfl

@[simp] theorem names_wrap (p : Plan) (operator : Operator) :
    (p.wrap operator).names = operator.name :: p.names := rfl

@[simp] theorem projectedMeasures?_wrap_project (p : Plan) (measures : RowSet) :
    (p.wrap (.project measures)).projectedMeasures? = some measures := rfl

@[simp] theorem rollupLevels?_wrap_rollup (p : Plan) (hierarchies levels : RowSet) :
    (p.wrap (.rollup hierarchies levels)).rollupLevels? = some levels := rfl

end Plan

/-! ### Text -/

/-- A row set that describes objects, by their names in a column. -/
def bracketed (rows : RowSet) (column : String) : String := "[" ++ rows.columnText column ++ "]"

/-- The text of an operator. -/
def Operator.text : Operator → String
  | project measures => "Projection: measures=" ++ bracketed measures Column.measureUniqueName
  | dice hierarchies tuples =>
    let texts := tuples.map fun tuple => "(" ++ tuple.columnText Column.memberUniqueName ++ ")"
    "Dice: hierarchies=" ++ bracketed hierarchies Column.hierarchyUniqueName
      ++ " tuples=[" ++ ", ".intercalate texts ++ "]"
  | slice dimensions => "Slice: dimensions=" ++ bracketed dimensions Column.dimensionUniqueName
  | rollup hierarchies levels =>
    "Rollup: hierarchies=" ++ bracketed hierarchies Column.hierarchyUniqueName
      ++ " levels=" ++ bracketed levels Column.levelUniqueName

namespace Plan

/-- A line that is indented by two blanks for every line above it. -/
def indent (depth : Nat) (line : String) : String :=
  String.ofList (List.replicate (2 * depth) ' ') ++ line

/-- The text of a plan: a line for each operator, the outermost one first, and one for the
cube. -/
def text (p : Plan) : String :=
  let lines := p.operators.map Operator.text ++ ["BaseCube: " ++ p.cube.columnText Column.cubeName]
  "\n".intercalate (lines.zipIdx.map fun (line, depth) => indent depth line)

end Plan

end Datacube
