import Datacube.Memory.Cube

/-!
# Descriptions of cubes

A cube in memory is made from a description, which is checked: levels, parents, operands of
formulas, and the members and measures of observations must exist.  The unique name of a member
extends the one of its parent or, at the root, of its dimension.

## Main definitions

* `CubeDescription` — a description.
* `CubeDescription.build` — the cube that it describes.
-/

namespace Datacube

/-! ### Descriptions -/

/-- A dimension with one hierarchy of the same name. -/
structure DimensionDescription where
  name : String
  type : DimensionType
  /-- The names of the levels from the root downwards. -/
  levels : List String

/-- A member. -/
structure MemberDescription where
  /-- The unique name of the level. -/
  level : String
  name : String
  /-- The unique name of the parent. -/
  parent : Option String

/-- A measure. -/
inductive MeasureDescription where
  /-- A measure with values of its own. -/
  | stored (name : String) (aggregator : Aggregator)
  /-- A measure that is calculated from two others, given by their unique names. -/
  | calculated (name : String) (formula : Formula)

/-- An observation. -/
structure FactDescription where
  /-- The unique names of the members. -/
  members : List String
  /-- The values by the names of their measures. -/
  values : List (String × Float)

/-- A cube. -/
structure CubeDescription where
  name : String
  dimensions : List DimensionDescription
  members : List MemberDescription
  measures : List MeasureDescription
  facts : List FactDescription

/-! ### Dimensions, hierarchies and levels -/

section

variable (cubeName : String)

/-- The described dimension, at its place among those of the cube. -/
def DimensionDescription.toDimension (d : DimensionDescription) (ordinal : Nat) : Dimension where
  label := .ofName (quoteSegment d.name) d.name
  cubeName
  type := d.type
  ordinal

/-- The hierarchy of a dimension. -/
def DimensionDescription.toHierarchy (d : DimensionDescription) : Hierarchy where
  label := .ofName (quoteSegment d.name) d.name
  cubeName
  dimension := quoteSegment d.name

/-- A level of a dimension, still without members. -/
def DimensionDescription.toLevel (d : DimensionDescription) (name : String) (depth : Nat) :
    Level where
  label := .ofName (quoteSegment d.name ++ "." ++ quoteSegment name) name
  cubeName
  dimension := quoteSegment d.name
  hierarchy := quoteSegment d.name
  depth
  cardinality := 0

/-- The levels of a dimension. -/
def DimensionDescription.toLevels (d : DimensionDescription) : List Level :=
  d.levels.zipIdx.map fun (name, depth) => d.toLevel cubeName name depth

end

/-! ### Members -/

/-- The levels with one more member in the first of the given name. -/
def countMember (name : String) : List Level → List Level
  | [] => []
  | l :: ls =>
    if l.label.uniqueName == name then { l with cardinality := l.cardinality + 1 } :: ls
    else l :: countMember name ls

/-- The levels of a cube and the members made so far, the newest one first. -/
structure Populace where
  levels : List Level
  newest : List Member

namespace Populace

/-- The newest member of the given unique name. -/
def member? (q : Populace) (name : String) : Option Member :=
  q.newest.find? fun member => member.label.uniqueName == name

/-- Whether a parent is a member of the level above `level`. -/
def isParent (q : Populace) (level : Level) (parent : String) : Bool :=
  match q.member? parent with
  | some member => member.depth + 1 == level.depth
  | none => false

/-- The unique name of a new member of a level. -/
def nameOf (level : Level) (d : MemberDescription) : String :=
  d.parent.getD level.dimension ++ "." ++ quoteSegment d.name

/-- A new member of a level, after those that the level has. -/
def memberOf (level : Level) (d : MemberDescription) : Member :=
  { Member.regular (.ofName (nameOf level d) d.name) level level.cardinality with
    parent := d.parent }

/-- The members with one more. -/
def add (q : Populace) (d : MemberDescription) : Outcome Populace :=
  match q.levels.find? fun level => level.label.uniqueName == d.level with
  | none => .error (.invalidMetadata ("Unknown level " ++ d.level))
  | some level =>
    let made : Populace := ⟨countMember d.level q.levels, memberOf level d :: q.newest⟩
    match d.parent with
    | none => .ok made
    | some parent =>
      if q.isParent level parent then .ok made
      else .error (.invalidMetadata
        (parent ++ " is not a member of the level above " ++ level.label.uniqueName))

end Populace

/-! ### Measures -/

/-- The label of a measure. -/
def measureLabel (name : String) : Label :=
  .ofName (measuresDimension ++ "." ++ quoteSegment name) name

/-- The measures made so far with one more.  The first operand of a formula must be one of
them. -/
def addMeasure (level : Level) (measures : List Member) (d : MeasureDescription) :
    Outcome (List Member) :=
  match d with
  | .stored name aggregator =>
    .ok (measures ++ [.stored (measureLabel name) level measures.length aggregator])
  | .calculated name formula =>
    match measures.find? fun a => a.label.uniqueName == formula.lhs with
    | some sibling =>
      .ok (measures ++ [.calculated (measureLabel name) sibling measures.length formula])
    | none => .error (.invalidMetadata
        ("The formula " ++ formula.text ++ " must refer to a measure defined before " ++ name))

/-- The level of the measures. -/
def measuresLevelOf (cubeName : String) (count : Nat) : Level where
  label := .ofName measuresLevel "MeasuresLevel"
  cubeName
  dimension := measuresDimension
  hierarchy := measuresHierarchy
  depth := 0
  cardinality := count

/-- The dimension of the measures. -/
def measuresDimensionOf (cubeName : String) (ordinal : Nat) : Dimension where
  label := .ofName measuresDimension "Measures"
  cubeName
  type := .measure
  ordinal

/-- The hierarchy of the measures. -/
def measuresHierarchyOf (cubeName : String) : Hierarchy where
  label := .ofName measuresHierarchy "Measures"
  cubeName
  dimension := measuresDimension

/-! ### Observations -/

/-- The value of a stored measure, which may be given by any of its names. -/
def factValue (measures : List Member) (name : String) (value : Float) :
    Outcome (String × Float) :=
  match measures.find? fun a => isNamed a name && !a.isCalculated with
  | some measure => .ok (measure.label.uniqueName, value)
  | none => .error (.invalidMetadata ("Unknown measure " ++ name))

/-- The described observation of a cube with the given members and measures. -/
def FactDescription.toFact (f : FactDescription) (members measures : List Member) : Outcome Fact :=
  match f.members.find? fun name => !members.any fun member => member.label.uniqueName == name with
  | some unknown => .error (.invalidMetadata ("Unknown member " ++ unknown))
  | none => do
    let values ← f.values.mapM fun (name, value) => factValue measures name value
    return ⟨f.members, values⟩

/-! ### The cube -/

namespace CubeDescription

variable (d : CubeDescription)

/-- The cube object of a description.  Its catalog and its schema are those of the engine that
serves it. -/
def toCube : Cube := ⟨.ofName (quoteSegment d.name) d.name, "", ""⟩

/-- The dimensions other than the measures dimension. -/
def toDimensions : List Dimension :=
  d.dimensions.zipIdx.map fun (dimension, ordinal) => dimension.toDimension d.name ordinal

/-- The levels of all dimensions, still without members. -/
def toLevels : List Level := d.dimensions.flatMap fun dimension => dimension.toLevels d.name

/-- The levels and the members. -/
def populace : Outcome Populace := d.members.foldlM Populace.add ⟨d.toLevels, []⟩

/-- The measures. -/
def toMeasures : Outcome (List Member) :=
  d.measures.foldlM (addMeasure (measuresLevelOf d.name d.measures.length)) []

/-- The described cube.  With a measure there is also a measures dimension, after all others. -/
def build : Outcome MemoryCube := do
  let q ← d.populace
  let members := q.newest.reverse
  let measures ← d.toMeasures
  let facts ← d.facts.mapM fun fact => fact.toFact members measures
  let hasMeasures := !d.measures.isEmpty
  return {
    cube := d.toCube
    dimensions := d.toDimensions
      ++ if hasMeasures then [measuresDimensionOf d.name d.dimensions.length] else []
    hierarchies := d.dimensions.map (·.toHierarchy d.name)
      ++ if hasMeasures then [measuresHierarchyOf d.name] else []
    levels := q.levels
      ++ if hasMeasures then [measuresLevelOf d.name d.measures.length] else []
    members
    measures
    facts }

end CubeDescription

end Datacube
