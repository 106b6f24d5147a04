import Datacube.Schema.Container
import Datacube.Schema.Member

/-!
# Schema objects of all kinds

The objects that an identifier may name.

## Main definitions

* `SchemaObject` — a cube or an object inside it.
* `SchemaObject.isNamed` — whether a segment of an identifier names it.
-/

namespace Datacube

/-- A cube or an object inside it. -/
inductive SchemaObject where
  | cube (cube : Cube)
  | dimension (dimension : Dimension)
  | hierarchy (hierarchy : Hierarchy)
  | level (level : Level)
  | member (member : Member)
  deriving DecidableEq, Repr

namespace SchemaObject

/-- The label of an object. -/
def label : SchemaObject → Label
  | cube a => a.label
  | dimension a => a.label
  | hierarchy a => a.label
  | level a => a.label
  | member a => a.label

instance : Labelled SchemaObject := ⟨label⟩

/-- The unique name of an object. -/
def uniqueName (o : SchemaObject) : String := o.label.uniqueName

/-- Whether a segment of an identifier names an object. -/
def isNamed (o : SchemaObject) (segment : String) : Bool := Datacube.isNamed o segment

/-- The name of the kind of an object. -/
def kind : SchemaObject → String
  | cube _ => "cube"
  | dimension _ => "dimension"
  | hierarchy _ => "hierarchy"
  | level _ => "level"
  | member _ => "member"

/-- How many kinds of objects lie below the kind of an object. -/
def rank : SchemaObject → Nat
  | cube _ => 4
  | dimension _ => 3
  | hierarchy _ => 2
  | level _ => 1
  | member _ => 0

end SchemaObject

end Datacube
