import Datacube.RowSet
import Datacube.Schema.Column
import Datacube.UniqueName.Basic

/-!
# Schema objects as rows

Every schema object has a label, the names under which it is known and shown.  Objects are
read from the rows of a row set and written to rows with a fixed header.

## Main definitions

* `Label` — the names of a schema object.
* `Label.read` — the label that a row gives.
* `Labelled` — a kind of object that has a label; `isNamed` — whether a segment names an object.
* `Record` — a kind of object that is exchanged as rows; `readAll`, `rowSetOf` — lists of them.
-/

namespace Datacube

/-! ### Labels -/

/-- The names of a schema object. -/
structure Label where
  /-- The unique name, the key of the object. -/
  uniqueName : String
  /-- The name that segments of identifiers are compared with. -/
  name : String
  /-- The name that is shown. -/
  caption : String
  /-- A longer description, possibly empty. -/
  description : String
  deriving DecidableEq, Repr, Inhabited

/-- The label with given names, shown under its name. -/
def Label.ofName (uniqueName name : String) : Label := ⟨uniqueName, name, name, ""⟩

/-- The label that a row gives.  A unique name is derived from the name by quoting it, a name
from the unique name, and a caption from the name; without name and unique name there is no
label. -/
def Label.read (row : Row) (nameColumn : String) (uniqueNameColumn captionColumn : Option String) :
    Outcome Label := do
  let uniqueName := uniqueNameColumn.bind row.text?
  let name ← match (row.text? nameColumn).or uniqueName with
    | some name => pure name
    | none => row.require nameColumn
  return {
    uniqueName := uniqueName.getD (quoteSegment name)
    name
    caption := (captionColumn.bind row.text?).getD name
    description := (row.text? Column.description).getD "" }

/-! ### Objects -/

/-- A kind of object that has a label. -/
class Labelled (α : Type) where
  /-- The label of an object. -/
  label : α → Label

export Labelled (label)

section

variable {α : Type} [Labelled α]

/-- The key of an object. -/
def uniqueName (a : α) : String := (label a).uniqueName

/-- Whether a segment of an identifier names an object: it is the name, the unique name, or the
unique name without its brackets. -/
def isNamed (a : α) (segment : String) : Bool :=
  (label a).name == segment || (label a).uniqueName == segment
    || (label a).uniqueName == quoteSegment segment

end

/-- A kind of schema object that is exchanged as rows. -/
class Record (α : Type) extends Labelled α where
  /-- The header of the rows that are written. -/
  columns : List String
  /-- The object that a row describes. -/
  read : Row → Outcome α
  /-- The row that describes an object. -/
  write : α → List Term
  /-- A written row has one value per column. -/
  length_write : ∀ a, (write a).length = columns.length

/-- The objects that the rows of a row set describe. -/
def readAll (α : Type) [Record α] (rows : RowSet) : Outcome (List α) :=
  rows.tuples.mapM Record.read

/-- The row set that describes objects. -/
def rowSetOf {α : Type} [Record α] (objects : List α) : RowSet where
  columns := Record.columns α
  rows := objects.map Record.write
  width_eq row h := by
    obtain ⟨a, -, rfl⟩ := List.mem_map.1 h
    exact Record.length_write a

@[simp] theorem columns_rowSetOf {α : Type} [Record α] (objects : List α) :
    (rowSetOf objects).columns = Record.columns α := rfl

@[simp] theorem rows_rowSetOf {α : Type} [Record α] (objects : List α) :
    (rowSetOf objects).rows = objects.map Record.write := rfl

theorem tuples_rowSetOf {α : Type} [Record α] (objects : List α) :
    (rowSetOf objects).tuples = objects.map fun a => (Record.columns α).zip (Record.write a) := by
  simp [RowSet.tuples]

end Datacube
