import Datacube.Engine.Basic
import Datacube.Memory.Execution

/-!
# Engines over cubes in memory

An engine that serves the schema objects and the observations of cubes in memory, all of them
in one schema of one catalog.

## Main definitions

* `MemoryEngine` — the engine; `MemoryEngine.register` — with one more cube.
* `MemoryEngine.answer` — the answer to a request.
-/

namespace Datacube

/-- Cubes in memory, in one schema of one catalog. -/
structure MemoryEngine where
  catalogName : String
  schemaName : String
  cubes : List MemoryCube := []

namespace MemoryEngine

variable (e : MemoryEngine)

/-- The engine with one more cube, which becomes part of its schema. -/
def register (c : MemoryCube) : MemoryEngine :=
  let cube : Cube := { c.cube with catalogName := e.catalogName, schemaName := e.schemaName }
  { e with cubes := e.cubes ++ [{ c with cube }] }

/-- The database of the engine. -/
def database : Database := ⟨⟨"memory", "memory", "memory", "Cubes held in memory"⟩, none⟩

/-- The catalog of the engine. -/
def catalog : Catalog := ⟨.ofName e.catalogName e.catalogName⟩

/-- The schema of the engine. -/
def schema : Schema := ⟨.ofName e.schemaName e.schemaName, e.catalogName⟩

/-- Whether a name satisfies a restriction. -/
def satisfies (restriction : Option String) (test : String → Bool) : Bool :=
  match restriction with
  | some name => test name
  | none => true

/-- Whether the catalog, the schema and the names of a cube satisfy restrictions. -/
def selects (r : Restrictions) (c : MemoryCube) : Bool :=
  satisfies r.catalog (· == c.cube.catalogName) && satisfies r.schema (· == c.cube.schemaName)
    && satisfies r.cube (isNamed c.cube)

/-- The cubes that satisfy restrictions. -/
def selected (r : Restrictions) : List MemoryCube := e.cubes.filter (selects r)

/-- The rows of objects that satisfy restrictions. -/
def rowsOf {α : Type} [Record α] (r : Restrictions) (objects : List α) : RowSet :=
  (rowSetOf objects).filter r.admits

/-- The objects of a collection that satisfy restrictions. -/
def list (r : Restrictions) : Listing → RowSet
  | .databases => rowsOf r [database]
  | .catalogs => rowsOf r [e.catalog]
  | .schemas => rowsOf r [e.schema]
  | .cubes => rowSetOf ((e.selected r).map MemoryCube.cube)
  | .dimensions => rowsOf r ((e.selected r).flatMap MemoryCube.dimensions)
  | .measures => (measureRowSet ((e.selected r).flatMap MemoryCube.measures)).filter r.admits
  | .hierarchies => rowsOf r ((e.selected r).flatMap MemoryCube.hierarchies)
  | .levels => rowsOf r ((e.selected r).flatMap MemoryCube.levels)
  | .members => rowsOf r ((e.selected r).flatMap MemoryCube.members)

/-- The cube that a plan queries: the first one named like the cube of the plan. -/
def planCube (plan : Plan) : Outcome MemoryCube := do
  match ← readAll Cube plan.cube with
  | [] => .error (.malformedResult "The plan has no base cube")
  | cube :: _ =>
    match e.cubes.find? fun c => isNamed c.cube cube.label.name with
    | some c => .ok c
    | none => .error (.unresolvedIdentifier cube.label.name)

/-- The answer to a request. -/
def answer : Request → Outcome RowSet
  | .list listing r => .ok (e.list r listing)
  | .execute plan => do (← e.planCube plan).execute plan

end MemoryEngine

end Datacube
