import Datacube.RowSet
import Datacube.Schema.Column

/-!
# Restrictions of metadata requests

A request for schema objects may be restricted to objects with given names.

## Main definitions

* `Restrictions` — the given names.
* `Restrictions.pairs` — the restrictions as columns and values.
* `Restrictions.admits` — whether a row satisfies them.
-/

namespace Datacube

/-- The names to which a request is restricted.  What is absent does not restrict it. -/
structure Restrictions where
  database : Option String := none
  catalog : Option String := none
  schema : Option String := none
  cube : Option String := none
  /-- The unique name of a dimension. -/
  dimension : Option String := none
  /-- The unique name of a hierarchy. -/
  hierarchy : Option String := none
  /-- The unique name of a level. -/
  level : Option String := none
  /-- The unique name of a member. -/
  member : Option String := none
  deriving DecidableEq, Repr, Inhabited

namespace Restrictions

/-- The restricted columns and their values. -/
def pairs (r : Restrictions) : List (String × String) :=
  [(Column.dataSourceName, r.database), (Column.catalogName, r.catalog),
    (Column.schemaName, r.schema), (Column.cubeName, r.cube),
    (Column.dimensionUniqueName, r.dimension), (Column.hierarchyUniqueName, r.hierarchy),
    (Column.levelUniqueName, r.level), (Column.memberUniqueName, r.member)].filterMap
      fun (column, value) => value.map fun value => (column, value)

/-- Whether a row satisfies the restrictions: every restricted column that it has holds the
value of the restriction. -/
def admits (r : Restrictions) (row : Row) : Bool :=
  r.pairs.all fun (column, value) =>
    match row.get? column with
    | some term => term.value == value
    | none => true

end Restrictions

end Datacube
