import Datacube.Schema.Dimension
import Datacube.Schema.Measure

/-!
# Members

The members of a level, among them the measures of a cube.  Members are described by rows of
their own, and measures also by shorter rows.

## Main definitions

* `Member` — a member; `Member.regular`, `Member.stored`, `Member.calculated` — new ones.
* `readMeasures`, `measureRowSet` — lists of measures as rows.
-/

namespace Datacube

/-! ### Kinds of members -/

/-- The kind of a member. -/
inductive MemberType where
  | unknown
  | regular
  | all
  | measure
  | formula
  deriving DecidableEq, Repr, Inhabited

namespace MemberType

/-- The numeric code of a kind. -/
def code : MemberType → Nat
  | unknown => 0
  | regular => 1
  | all => 2
  | measure => 3
  | formula => 4

/-- The kind with the given code or name.  Any other text is the unknown kind. -/
def parse (s : String) : MemberType :=
  match upperCase (trim s) with
  | "1" | "REGULAR" => regular
  | "2" | "ALL" => all
  | "3" | "MEASURE" => measure
  | "4" | "FORMULA" => formula
  | _ => unknown

/-- Whether members of a kind are measures, stored or calculated. -/
def isMeasure : MemberType → Bool
  | measure | formula => true
  | unknown | regular | all => false

end MemberType

/-! ### Members -/

/-- A member of a level. -/
structure Member where
  label : Label
  cubeName : String
  /-- The unique name of the dimension around the hierarchy. -/
  dimension : String
  /-- The unique name of the hierarchy around the level. -/
  hierarchy : String
  /-- The unique name of the level. -/
  level : String
  /-- The distance of the level from the root level. -/
  depth : Nat
  /-- The unique name of the member above, absent at the root level. -/
  parent : Option String
  type : MemberType
  /-- The place of the member among those of its level. -/
  ordinal : Nat
  /-- Further properties, ordered by name. -/
  properties : List (String × String)
  /-- The attributes of a measure. -/
  measure : Option MeasureInfo
  deriving DecidableEq, Repr

instance : Labelled Member := ⟨Member.label⟩

/-- The unique names under which measures are found if nothing else is said. -/
def measuresDimension : String := "[Measures]"
@[inherit_doc measuresDimension] def measuresHierarchy : String := "[Measures]"
@[inherit_doc measuresDimension] def measuresLevel : String := "[Measures].[MeasuresLevel]"

namespace Member

/-- Whether a member is a measure, stored or calculated. -/
def isMeasure (m : Member) : Bool := m.type.isMeasure

/-- Whether a member is a calculated measure. -/
def isCalculated (m : Member) : Bool := m.type == .formula

/-- The aggregator of a measure. -/
def aggregator? (m : Member) : Option Aggregator := m.measure.map MeasureInfo.aggregator

/-- The formula of a calculated measure. -/
def formula? (m : Member) : Option Formula := m.measure.bind MeasureInfo.formula

/-- An ordinary member of a level. -/
def regular (label : Label) (level : Level) (ordinal : Nat) : Member where
  label
  cubeName := level.cubeName
  dimension := level.dimension
  hierarchy := level.hierarchy
  level := level.label.uniqueName
  depth := level.depth
  parent := none
  type := .regular
  ordinal
  properties := []
  measure := none

/-- A measure of a level. -/
def stored (label : Label) (level : Level) (ordinal : Nat) (aggregator : Aggregator) : Member :=
  { regular label level ordinal with
    type := .measure
    measure := some ⟨aggregator, none, none⟩ }

/-- A calculated measure in the level of another member. -/
def calculated (label : Label) (sibling : Member) (ordinal : Nat) (formula : Formula) : Member where
  label
  cubeName := sibling.cubeName
  dimension := sibling.dimension
  hierarchy := sibling.hierarchy
  level := sibling.level
  depth := sibling.depth
  parent := none
  type := .formula
  ordinal
  properties := []
  measure := some ⟨.calculated, none, some formula⟩

/-- The member below another one. -/
def below (m : Member) (parent : String) : Member := { m with parent := some parent }

end Member

/-! ### Member rows -/

/-- The attributes of the measure that a row describes.  A formula makes it a calculated one
unless an aggregator is given. -/
def MeasureInfo.read (row : Row) : Outcome MeasureInfo := do
  let formula ← (row.text? Column.expression).mapM Formula.read
  return {
    aggregator := match row.text? Column.measureAggregator with
      | some s => .parse s
      | none => if formula.isSome then .calculated else .sum
    datatype := row.text? Column.dataType
    formula }

/-- The aggregator, the datatype and the formula of a member, empty if there is none. -/
def Member.measureTexts (m : Member) : String × String × String :=
  (((m.aggregator?).map Aggregator.text).getD "",
    (m.measure.bind MeasureInfo.datatype).getD "",
    ((m.formula?).map Formula.text).getD "")

/-- Sets a property in a list that is ordered by name. -/
def setProperty (name value : String) : List (String × String) → List (String × String)
  | [] => [(name, value)]
  | (n, v) :: rest =>
    if name = n then (name, value) :: rest
    else if name < n then (name, value) :: (n, v) :: rest
    else (n, v) :: setProperty name value rest

/-- The header of member rows. -/
def Member.header : List String :=
  [Column.cubeName, Column.dimensionUniqueName, Column.hierarchyUniqueName,
    Column.levelUniqueName, Column.levelNumber, Column.memberOrdinal, Column.memberName,
    Column.memberUniqueName, Column.memberType, Column.memberCaption, Column.parentUniqueName,
    Column.description, Column.measureAggregator, Column.dataType, Column.expression]

/-- The values of the columns that are not in the header, as properties. -/
def Member.readProperties (row : Row) : List (String × String) :=
  (row.filter fun (column, _) => !Member.header.contains column).foldl
    (fun properties (column, term) => setProperty column term.value properties) []

/-- The kind of the member that a row describes: a regular one if none is given, and a measure
if a regular one has an aggregator. -/
def MemberType.read (row : Row) : MemberType :=
  let type := ((row.text? Column.memberType).map MemberType.parse).getD .regular
  if type = .regular ∧ (row.text? Column.measureAggregator).isSome then .measure else type

instance : Record Member where
  columns := Member.header
  read row := do
    let label ← Label.read row Column.memberName (some Column.memberUniqueName)
      (some Column.memberCaption)
    let type := MemberType.read row
    let measure ← if type.isMeasure then some <$> MeasureInfo.read row else pure none
    return {
      label
      cubeName := ← row.require Column.cubeName
      dimension := ← row.require Column.dimensionUniqueName
      hierarchy := ← row.require Column.hierarchyUniqueName
      level := ← row.require Column.levelUniqueName
      depth := ← row.countOrZero Column.levelNumber
      parent := row.text? Column.parentUniqueName
      type
      ordinal := ← row.countOrZero Column.memberOrdinal
      properties := Member.readProperties row
      measure }
  write a :=
    let (aggregator, datatype, formula) := a.measureTexts
    [.simple a.cubeName, .simple a.dimension, .simple a.hierarchy, .simple a.level,
      .simple a.depth.repr, .simple a.ordinal.repr, .simple a.label.name,
      .simple a.label.uniqueName, .simple a.type.code.repr, .simple a.label.caption,
      .simple (a.parent.getD ""), .simple a.label.description,
      .simple aggregator, .simple datatype, .simple formula]
  length_write _ := rfl

/-! ### Measure rows -/

/-- The header of measure rows. -/
def measureHeader : List String :=
  [Column.cubeName, Column.dimensionUniqueName, Column.hierarchyUniqueName,
    Column.levelUniqueName, Column.measureName, Column.measureUniqueName,
    Column.measureCaption, Column.measureAggregator, Column.dataType, Column.expression,
    Column.description]

/-- The measure that a row describes.  Its ordinal is the place of the row. -/
def readMeasure (row : Row) (ordinal : Nat) : Outcome Member := do
  let label ← Label.read row Column.measureName (some Column.measureUniqueName)
    (some Column.measureCaption)
  let measure ← MeasureInfo.read row
  return {
    label
    cubeName := ← row.require Column.cubeName
    dimension := (row.text? Column.dimensionUniqueName).getD measuresDimension
    hierarchy := (row.text? Column.hierarchyUniqueName).getD measuresHierarchy
    level := (row.text? Column.levelUniqueName).getD measuresLevel
    depth := 0
    parent := none
    type := if measure.aggregator = .calculated then .formula else .measure
    ordinal
    properties := []
    measure := some measure }

/-- The measures that the rows of a row set describe. -/
def readMeasures (rows : RowSet) : Outcome (List Member) :=
  rows.tuples.zipIdx.mapM fun (row, ordinal) => readMeasure row ordinal

/-- The row that describes a measure. -/
def writeMeasure (m : Member) : List Term :=
  let (aggregator, datatype, formula) := m.measureTexts
  [.simple m.cubeName, .simple m.dimension, .simple m.hierarchy, .simple m.level,
    .simple m.label.name, .simple m.label.uniqueName, .simple m.label.caption,
    .simple aggregator, .simple datatype, .simple formula, .simple m.label.description]

/-- The row set that describes measures. -/
def measureRowSet (measures : List Member) : RowSet where
  columns := measureHeader
  rows := measures.map writeMeasure
  width_eq row h := by
    obtain ⟨m, -, rfl⟩ := List.mem_map.1 h
    rfl

end Datacube
