import Datacube.Cells.Display
import Datacube.RowSet

/-!
# The values of a result

The rows of a result are looked up by the canonical names of the members of a cell, in the order
of the key columns.  If several rows have the same names, the last one counts.

## Main definitions

* `CellValue` — a value and the text that is shown for it.
* `CellCache` — the rows of a result by their keys.
* `CellCache.ofResult`, `CellCache.get?` — filling and looking up.
-/

namespace Datacube

/-- A value of a result. -/
structure CellValue where
  /-- The value as the engine returned it. -/
  value : String
  /-- The text that is shown. -/
  formatted : String
  deriving DecidableEq, Repr

/-- The key of a row: the canonical names of the members of a cell. -/
abbrev CellKey := List String

/-- The rows of a result by their keys. -/
structure CellCache where
  /-- The rows in the order of the result.  An empty value is absent. -/
  rows : List (CellKey × List (Option CellValue))
  deriving DecidableEq, Repr

namespace CellCache

/-- The value of a lexical value, absent if that is empty. -/
def valueOf? (s : String) : Option CellValue :=
  if s = "" then none else some ⟨s, displayValue s⟩

/-- The key and the values of a row whose first `keys` columns are the key. -/
def entry (keys measures : Nat) (row : List Term) : CellKey × List (Option CellValue) :=
  let texts := row.map Term.value
  (texts.take keys, ((texts.drop keys).take measures).map valueOf?)

/-- The fault of a row that is too short. -/
def shortFault (keys measures index : Nat) (row : List Term) : Fault :=
  .malformedResult ("Row " ++ index.repr ++ " has " ++ row.length.repr ++ " values, expected "
    ++ keys.repr ++ " key columns and " ++ measures.repr ++ " measures")

/-- The rows of a result whose first `keys` columns are the key, and the next `measures` columns
the values of the measures. -/
def ofResult (result : RowSet) (keys measures : Nat) : Outcome CellCache :=
  match result.rows.zipIdx.find? fun (row, _) => row.length < keys + measures with
  | some (row, index) => .error (shortFault keys measures index row)
  | none => .ok ⟨result.rows.map (entry keys measures)⟩

/-- The value of a measure, given by its index, in the cell with the given key. -/
def get? (c : CellCache) (key : CellKey) (measure : Nat) : Option CellValue := do
  let (_, values) ← c.rows.reverse.find? fun (k, _) => k == key
  (← values[measure]?)

/-- The number of different keys. -/
def size (c : CellCache) : Nat := (c.rows.map Prod.fst).eraseDups.length

end CellCache

end Datacube
