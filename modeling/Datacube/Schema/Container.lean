import Datacube.Schema.Record

/-!
# Databases, catalogs, schemas and cubes

The objects that contain the dimensions of a cube.  They refer to the objects around them by
name.

## Main definitions

* `Database`, `Catalog`, `Schema`, `Cube` — the objects, with their rows.
-/

namespace Datacube

/-- A data source. -/
structure Database where
  label : Label
  /-- Where the data source is found. -/
  url : Option String
  deriving DecidableEq, Repr

/-- A container of schemas. -/
structure Catalog where
  label : Label
  deriving DecidableEq, Repr

/-- A container of cubes. -/
structure Schema where
  label : Label
  /-- The name of the catalog around the schema. -/
  catalogName : String
  deriving DecidableEq, Repr

/-- A set of observations that are described by dimensions and measures. -/
structure Cube where
  label : Label
  /-- The name of the catalog around the schema of the cube. -/
  catalogName : String
  /-- The name of the schema around the cube. -/
  schemaName : String
  deriving DecidableEq, Repr

/-- The unique name of a database is its name; a description of the data source wins over any
other. -/
instance : Record Database where
  label := Database.label
  columns := [Column.dataSourceName, Column.dataSourceDescription, Column.url]
  read row := do
    let label ← Label.read row Column.dataSourceName none none
    return {
      label := { label with
        uniqueName := label.name
        description := (row.text? Column.dataSourceDescription).getD label.description }
      url := row.text? Column.url }
  write a := [.simple a.label.name, .simple a.label.description, .simple (a.url.getD "")]
  length_write _ := rfl

instance : Record Catalog where
  label := Catalog.label
  columns := [Column.catalogName, Column.description]
  read row := return { label := ← Label.read row Column.catalogName none none }
  write a := [.simple a.label.name, .simple a.label.description]
  length_write _ := rfl

instance : Record Schema where
  label := Schema.label
  columns := [Column.catalogName, Column.schemaName, Column.description]
  read row := return {
    label := ← Label.read row Column.schemaName none none
    catalogName := ← row.require Column.catalogName }
  write a := [.simple a.catalogName, .simple a.label.name, .simple a.label.description]
  length_write _ := rfl

instance : Record Cube where
  label := Cube.label
  columns := [Column.catalogName, Column.schemaName, Column.cubeName, Column.cubeCaption,
    Column.description]
  read row := return {
    label := ← Label.read row Column.cubeName none (some Column.cubeCaption)
    catalogName := (row.text? Column.catalogName).getD ""
    schemaName := (row.text? Column.schemaName).getD "" }
  write a := [.simple a.catalogName, .simple a.schemaName, .simple a.label.name,
    .simple a.label.caption, .simple a.label.description]
  length_write _ := rfl

end Datacube
