import Datacube.Deferred.Keyed
import Datacube.Engine.Basic
import Datacube.Ordering
import Datacube.Provider

/-!
# Metadata stores

A store asks an engine for each collection of schema objects when it is first needed, and keeps
the answer until it is reset.  The collections below a cube are kept by the names of the objects
around them.  A request that fails is sent again when the collection is needed again.

## Main definitions

* `Shelves` — the collections that a store keeps; `Shelves.reset` — without their items.
* `Store` — an engine with the catalog and the schema that are looked at.
* `Session` — computations that use a store.
* `Store.databases`, `catalogs`, `schemas`, `cubes` — the collections outside of cubes.
* `Store.provider` — the store as a provider of schema objects.
-/

namespace Datacube

/-! ### Collections -/

/-- The collections that a store keeps. -/
structure Shelves where
  databases : Slot Database := {}
  catalogs : Slot Catalog := {}
  schemas : Slot Schema := {}
  cubes : Slot Cube := {}
  /-- By the name of the cube. -/
  dimensions : Keyed String Dimension := {}
  /-- By the name of the cube. -/
  measures : Keyed String Member := {}
  /-- By the name of the cube and the unique name of the dimension. -/
  hierarchies : Keyed (String × String) Hierarchy := {}
  /-- By the name of the cube and the unique name of the hierarchy. -/
  levels : Keyed (String × String) Level := {}
  /-- By the name of the cube and the unique name of the level. -/
  members : Keyed (String × String) Member := {}

/-- The collections without their items. -/
def Shelves.reset (s : Shelves) : Shelves where
  databases := s.databases.reset
  catalogs := s.catalogs.reset
  schemas := s.schemas.reset
  cubes := s.cubes.reset
  dimensions := s.dimensions.clear
  measures := s.measures.clear
  hierarchies := s.hierarchies.clear
  levels := s.levels.clear
  members := s.members.clear

/-- Where a slot is found among the collections. -/
structure Place (α : Type) where
  get : Shelves → Slot α
  set : Slot α → Shelves → Shelves

namespace Place

def databases : Place Database := ⟨Shelves.databases, fun t s => { s with databases := t }⟩
def catalogs : Place Catalog := ⟨Shelves.catalogs, fun t s => { s with catalogs := t }⟩
def schemas : Place Schema := ⟨Shelves.schemas, fun t s => { s with schemas := t }⟩
def cubes : Place Cube := ⟨Shelves.cubes, fun t s => { s with cubes := t }⟩

def dimensions (h : Handle String) : Place Dimension :=
  ⟨fun s => s.dimensions.slot h, fun t s => { s with dimensions := s.dimensions.set h t }⟩

def measures (h : Handle String) : Place Member :=
  ⟨fun s => s.measures.slot h, fun t s => { s with measures := s.measures.set h t }⟩

def hierarchies (h : Handle (String × String)) : Place Hierarchy :=
  ⟨fun s => s.hierarchies.slot h, fun t s => { s with hierarchies := s.hierarchies.set h t }⟩

def levels (h : Handle (String × String)) : Place Level :=
  ⟨fun s => s.levels.slot h, fun t s => { s with levels := s.levels.set h t }⟩

def members (h : Handle (String × String)) : Place Member :=
  ⟨fun s => s.members.slot h, fun t s => { s with members := s.members.set h t }⟩

end Place

/-! ### Sessions -/

/-- Computations that use a store over an engine with states in `σ`.  What they do to the
collections and to the engine stays done if they end in a fault. -/
abbrev Session (σ : Type) := ExceptT Fault (StateM (Shelves × σ))

namespace Session

variable {σ α : Type}

/-- Something that depends on the collections. -/
def look (f : Shelves → α) : Session σ α := do return f (← getThe (Shelves × σ)).1

/-- A change of the collections. -/
def change (f : Shelves → Shelves) : Session σ Unit :=
  modifyThe (Shelves × σ) fun (shelves, state) => (f shelves, state)

/-- The outcome of a computation as its result. -/
def outcome (x : Session σ α) : Session σ (Outcome α) := ExceptT.mk (Except.ok <$> x.run)

/-- The items of a slot, which are fetched if there are none.  The slot sees the beginning and
the end of the attempt. -/
def itemsOf (place : Place α) (fetch : Session σ (List α)) : Session σ (List α) := do
  match ← look fun s => (place.get s).items? with
  | some items => return items
  | none =>
    change fun s => place.set (place.get s).start s
    let attempt ← look fun s => (place.get s).attempt
    let result ← outcome fetch
    change fun s => place.set ((place.get s).finish attempt result) s
    liftExcept result
where
  /-- A computation with the given outcome. -/
  liftExcept (result : Outcome (List α)) : Session σ (List α) := ExceptT.mk (pure result)

end Session

/-! ### Stores -/

/-- An engine with the catalog and the schema that are looked at. -/
structure Store (σ : Type) where
  engine : Engine σ
  /-- The database to which the listed ones are restricted. -/
  database : Option String := none
  catalog : String
  schema : String

namespace Store

variable {σ : Type} (s : Store σ)

/-- The answer of the engine to a request. -/
def ask (request : Request) : Session σ RowSet :=
  ExceptT.mk fun (shelves, state) =>
    let (answer, state) := s.engine request state
    (answer, shelves, state)

/-- The objects of a collection as the engine lists them. -/
def fetch (α : Type) [Record α] (listing : Listing) (restrictions : Restrictions) :
    Session σ (List α) := do
  let rows ← s.ask (.list listing restrictions)
  ExceptT.mk (pure (readAll α rows))

/-- The restriction to the catalog and the schema. -/
def within : Restrictions := { catalog := some s.catalog, schema := some s.schema }

/-- The restriction to a cube. -/
def withinCube (cube : Cube) : Restrictions := { s.within with cube := some cube.label.name }

/-- The databases of the engine. -/
def databases : Session σ (List Database) :=
  Session.itemsOf .databases (s.fetch Database .databases { database := s.database })

/-- The catalogs of the engine. -/
def catalogs : Session σ (List Catalog) :=
  Session.itemsOf .catalogs (s.fetch Catalog .catalogs {})

/-- The schemas of the catalog. -/
def schemas : Session σ (List Schema) :=
  Session.itemsOf .schemas (s.fetch Schema .schemas { catalog := some s.catalog })

/-- The cubes of the schema. -/
def cubes : Session σ (List Cube) :=
  Session.itemsOf .cubes (s.fetch Cube .cubes s.within)

/-- The cube of a name or unique name, if there is one. -/
def cube? (name : String) : Session σ (Option Cube) := do
  return (← s.cubes).find? fun cube => isNamed cube name

/-- The dimensions of a cube by their ordinals. -/
def dimensions (cube : Cube) : Session σ (List Dimension) := do
  let h ← Session.look fun t => t.dimensions.handle cube.label.name
  Session.itemsOf (.dimensions h) do
    return sortBy (fun a b => a.ordinal ≤ b.ordinal)
      (← s.fetch Dimension .dimensions (s.withinCube cube))

/-- The hierarchies of a dimension. -/
def hierarchies (cube : Cube) (dimension : Dimension) : Session σ (List Hierarchy) := do
  let h ← Session.look fun t =>
    t.hierarchies.handle (cube.label.name, dimension.label.uniqueName)
  Session.itemsOf (.hierarchies h) <| s.fetch Hierarchy .hierarchies
    { s.withinCube cube with dimension := some dimension.label.uniqueName }

/-- The levels of a hierarchy by their depths. -/
def levels (cube : Cube) (hierarchy : Hierarchy) : Session σ (List Level) := do
  let h ← Session.look fun t => t.levels.handle (cube.label.name, hierarchy.label.uniqueName)
  Session.itemsOf (.levels h) do
    return sortBy (fun a b => a.depth ≤ b.depth) (← s.fetch Level .levels
      { s.withinCube cube with
        dimension := some hierarchy.dimension
        hierarchy := some hierarchy.label.uniqueName })

/-- The members of a level by their ordinals. -/
def members (cube : Cube) (level : Level) : Session σ (List Member) := do
  let h ← Session.look fun t => t.members.handle (cube.label.name, level.label.uniqueName)
  Session.itemsOf (.members h) do
    return sortBy (fun a b => a.ordinal ≤ b.ordinal) (← s.fetch Member .members
      { s.withinCube cube with
        dimension := some level.dimension
        hierarchy := some level.hierarchy
        level := some level.label.uniqueName })

/-- The measures of a cube. -/
def measures (cube : Cube) : Session σ (List Member) := do
  let h ← Session.look fun t => t.measures.handle cube.label.name
  Session.itemsOf (.measures h) do
    let rows ← s.ask (.list .measures (s.withinCube cube))
    ExceptT.mk (pure (readMeasures rows))

/-- Discards everything that the store keeps. -/
def reset : Session σ Unit := Session.change Shelves.reset

/-- The store as a provider of schema objects. -/
def provider : Provider (Session σ) where
  cube := s.cube?
  dimensions := s.dimensions
  hierarchies := s.hierarchies
  levels := s.levels
  members := s.members
  measures := s.measures

end Store

end Datacube
