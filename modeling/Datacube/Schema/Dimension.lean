import Datacube.Schema.Record
import Datacube.Text.Letter

/-!
# Dimensions, hierarchies and levels

A dimension of a cube contains hierarchies, and a hierarchy contains levels from the root
downwards.  Every object refers to those around it by their unique names.

## Main definitions

* `DimensionType` — what a dimension is about.
* `Dimension`, `Hierarchy`, `Level` — the objects, with their rows.
-/

namespace Datacube

/-- What a dimension is about. -/
inductive DimensionType where
  | unknown
  | time
  /-- The dimension holds the measures of the cube. -/
  | measure
  | other
  deriving DecidableEq, Repr, Inhabited

namespace DimensionType

/-- The numeric code of a type. -/
def code : DimensionType → Nat
  | unknown => 0
  | time => 1
  | measure => 2
  | other => 3

/-- The type with the given code or name.  Any other text is the unknown type. -/
def parse (s : String) : DimensionType :=
  match upperCase (trim s) with
  | "1" | "TIME" => time
  | "2" | "MEASURE" => measure
  | "3" | "OTHER" => other
  | _ => unknown

end DimensionType

/-- A dimension of a cube. -/
structure Dimension where
  label : Label
  cubeName : String
  type : DimensionType
  /-- The place of the dimension among those of the cube. -/
  ordinal : Nat
  deriving DecidableEq, Repr

/-- Whether a dimension holds the measures of the cube. -/
def Dimension.isMeasures (d : Dimension) : Bool := d.type == .measure

/-- A hierarchy of a dimension. -/
structure Hierarchy where
  label : Label
  cubeName : String
  /-- The unique name of the dimension around the hierarchy. -/
  dimension : String
  deriving DecidableEq, Repr

/-- A level of a hierarchy. -/
structure Level where
  label : Label
  cubeName : String
  /-- The unique name of the dimension around the hierarchy. -/
  dimension : String
  /-- The unique name of the hierarchy around the level. -/
  hierarchy : String
  /-- The distance from the root level. -/
  depth : Nat
  /-- The number of members. -/
  cardinality : Nat
  deriving DecidableEq, Repr

instance : Record Dimension where
  label := Dimension.label
  columns := [Column.cubeName, Column.dimensionName, Column.dimensionUniqueName,
    Column.dimensionCaption, Column.dimensionOrdinal, Column.dimensionType, Column.description]
  read row := return {
    label := ← Label.read row Column.dimensionName (some Column.dimensionUniqueName)
      (some Column.dimensionCaption)
    cubeName := ← row.require Column.cubeName
    type := ((row.text? Column.dimensionType).map DimensionType.parse).getD .unknown
    ordinal := ← row.countOrZero Column.dimensionOrdinal }
  write a := [.simple a.cubeName, .simple a.label.name, .simple a.label.uniqueName,
    .simple a.label.caption, .simple a.ordinal.repr, .simple a.type.code.repr,
    .simple a.label.description]
  length_write _ := rfl

instance : Record Hierarchy where
  label := Hierarchy.label
  columns := [Column.cubeName, Column.dimensionUniqueName, Column.hierarchyName,
    Column.hierarchyUniqueName, Column.hierarchyCaption, Column.description]
  read row := return {
    label := ← Label.read row Column.hierarchyName (some Column.hierarchyUniqueName)
      (some Column.hierarchyCaption)
    cubeName := ← row.require Column.cubeName
    dimension := ← row.require Column.dimensionUniqueName }
  write a := [.simple a.cubeName, .simple a.dimension, .simple a.label.name,
    .simple a.label.uniqueName, .simple a.label.caption, .simple a.label.description]
  length_write _ := rfl

instance : Record Level where
  label := Level.label
  columns := [Column.cubeName, Column.dimensionUniqueName, Column.hierarchyUniqueName,
    Column.levelName, Column.levelUniqueName, Column.levelCaption, Column.levelNumber,
    Column.levelCardinality, Column.description]
  read row := return {
    label := ← Label.read row Column.levelName (some Column.levelUniqueName)
      (some Column.levelCaption)
    cubeName := ← row.require Column.cubeName
    dimension := ← row.require Column.dimensionUniqueName
    hierarchy := ← row.require Column.hierarchyUniqueName
    depth := ← row.countOrZero Column.levelNumber
    cardinality := ← row.countOrZero Column.levelCardinality }
  write a := [.simple a.cubeName, .simple a.dimension, .simple a.hierarchy,
    .simple a.label.name, .simple a.label.uniqueName, .simple a.label.caption,
    .simple a.depth.repr, .simple a.cardinality.repr, .simple a.label.description]
  length_write _ := rfl

end Datacube
