import Datacube.Store

/-!
# Inquiries

All collections of a store are looked up in the same way: the names of the objects around them
determine a slot, and unless the slot holds the items, they are fetched with a request that is
restricted to these objects.

## Main definitions

* `Listing.Item`, `Listing.Key` — the objects of a collection, and the names of its slots.
* `Inquiry` — what a store is asked for; `Inquiry.key`, `Inquiry.restrictions` — where its answer
  is kept, and to which objects the request is restricted.
* `Place.of`, `Shelves.handle` — the slot of a name.
* `Store.list` — the answer of a store.
-/

namespace Datacube

namespace Listing

/-- The objects of a collection. -/
def Item : Listing → Type
  | databases => Database
  | catalogs => Catalog
  | schemas => Schema
  | cubes => Cube
  | dimensions => Dimension
  | measures => Member
  | hierarchies => Hierarchy
  | levels => Level
  | members => Member

instance : (l : Listing) → DecidableEq l.Item
  | databases => inferInstanceAs (DecidableEq Database)
  | catalogs => inferInstanceAs (DecidableEq Catalog)
  | schemas => inferInstanceAs (DecidableEq Schema)
  | cubes => inferInstanceAs (DecidableEq Cube)
  | dimensions => inferInstanceAs (DecidableEq Dimension)
  | measures | members => inferInstanceAs (DecidableEq Member)
  | hierarchies => inferInstanceAs (DecidableEq Hierarchy)
  | levels => inferInstanceAs (DecidableEq Level)

/-- Whether a collection has a single slot. -/
def single : Listing → Bool
  | databases | catalogs | schemas | cubes => true
  | dimensions | measures | hierarchies | levels | members => false

/-- The names of the slots of a collection.  A collection outside of cubes has a single slot. -/
def Key : Listing → Type
  | databases | catalogs | schemas | cubes => Unit
  | dimensions | measures => String
  | hierarchies | levels | members => String × String

instance : (l : Listing) → DecidableEq l.Key
  | databases | catalogs | schemas | cubes => inferInstanceAs (DecidableEq Unit)
  | dimensions | measures => inferInstanceAs (DecidableEq String)
  | hierarchies | levels | members => inferInstanceAs (DecidableEq (String × String))

end Listing

/-- What a store is asked for. -/
inductive Inquiry where
  | databases
  | catalogs
  | schemas
  | cubes
  | dimensions (cube : Cube)
  | measures (cube : Cube)
  | hierarchies (cube : Cube) (dimension : Dimension)
  | levels (cube : Cube) (hierarchy : Hierarchy)
  | members (cube : Cube) (level : Level)

namespace Inquiry

/-- The collection to which the answer belongs. -/
def listing : Inquiry → Listing
  | databases => .databases
  | catalogs => .catalogs
  | schemas => .schemas
  | cubes => .cubes
  | dimensions _ => .dimensions
  | measures _ => .measures
  | hierarchies .. => .hierarchies
  | levels .. => .levels
  | members .. => .members

/-- The name of the slot that keeps the answer. -/
def key : (q : Inquiry) → q.listing.Key
  | databases | catalogs | schemas | cubes => ()
  | dimensions cube | measures cube => cube.label.name
  | hierarchies cube dimension => (cube.label.name, dimension.label.uniqueName)
  | levels cube hierarchy => (cube.label.name, hierarchy.label.uniqueName)
  | members cube level => (cube.label.name, level.label.uniqueName)

end Inquiry

/-- Where the slot with a handle is found. -/
def Place.of : (l : Listing) → Handle l.Key → Place l.Item
  | .databases, _ => databases
  | .catalogs, _ => catalogs
  | .schemas, _ => schemas
  | .cubes, _ => cubes
  | .dimensions, h => dimensions h
  | .measures, h => measures h
  | .hierarchies, h => hierarchies h
  | .levels, h => levels h
  | .members, h => members h

/-- The handle of the slot that a name has now. -/
def Shelves.handle (s : Shelves) : (l : Listing) → l.Key → Handle l.Key
  | .databases, key | .catalogs, key | .schemas, key | .cubes, key => ⟨0, key⟩
  | .dimensions, key => s.dimensions.handle key
  | .measures, key => s.measures.handle key
  | .hierarchies, key => s.hierarchies.handle key
  | .levels, key => s.levels.handle key
  | .members, key => s.members.handle key

namespace Store

variable {σ : Type} (s : Store σ)

/-- The objects to which the request for an answer is restricted. -/
def restrictions : Inquiry → Restrictions
  | .databases => { database := s.database }
  | .catalogs => {}
  | .schemas => { catalog := some s.catalog }
  | .cubes => s.within
  | .dimensions cube | .measures cube => s.withinCube cube
  | .hierarchies cube dimension =>
    { s.withinCube cube with dimension := some dimension.label.uniqueName }
  | .levels cube hierarchy =>
    { s.withinCube cube with
      dimension := some hierarchy.dimension
      hierarchy := some hierarchy.label.uniqueName }
  | .members cube level =>
    { s.withinCube cube with
      dimension := some level.dimension
      hierarchy := some level.hierarchy
      level := some level.label.uniqueName }

end Store

/-- The items that the answer to a request describes, in the order in which they are kept. -/
def Listing.readItems : (l : Listing) → RowSet → Outcome (List l.Item)
  | .databases, rows => readAll Database rows
  | .catalogs, rows => readAll Catalog rows
  | .schemas, rows => readAll Schema rows
  | .cubes, rows => readAll Cube rows
  | .dimensions, rows => sortBy (fun a b => a.ordinal ≤ b.ordinal) <$> readAll Dimension rows
  | .measures, rows => readMeasures rows
  | .hierarchies, rows => readAll Hierarchy rows
  | .levels, rows => sortBy (fun a b => a.depth ≤ b.depth) <$> readAll Level rows
  | .members, rows => sortBy (fun a b => a.ordinal ≤ b.ordinal) <$> readAll Member rows

namespace Store

variable {σ : Type} (s : Store σ)

/-- The items that the engine lists. -/
def fetchItems (q : Inquiry) : Session σ (List q.listing.Item) := do
  let rows ← s.ask (.list q.listing (s.restrictions q))
  ExceptT.mk (pure (q.listing.readItems rows))

/-- The answer of a store. -/
def list (q : Inquiry) : Session σ (List q.listing.Item) := do
  let h ← Session.look fun t => t.handle q.listing q.key
  Session.itemsOf (.of q.listing h) (s.fetchItems q)

/-- Items that are sorted after they have been fetched. -/
private theorem fetch_map {α β : Type} [Record α] (listing : Listing) (restrictions : Restrictions)
    (f : List α → β) :
    (do return f (← s.fetch α listing restrictions) : Session σ β)
      = (do
        let rows ← s.ask (.list listing restrictions)
        ExceptT.mk (pure (f <$> readAll α rows))) := by
  rw [fetch, bind_assoc]
  congr 1
  funext rows
  cases readAll α rows <;> rfl

theorem databases_eq_list : s.databases = s.list .databases := rfl

theorem catalogs_eq_list : s.catalogs = s.list .catalogs := rfl

theorem schemas_eq_list : s.schemas = s.list .schemas := rfl

theorem cubes_eq_list : s.cubes = s.list .cubes := rfl

theorem measures_eq_list (cube : Cube) : s.measures cube = s.list (.measures cube) := rfl

theorem hierarchies_eq_list (cube : Cube) (d : Dimension) :
    s.hierarchies cube d = s.list (.hierarchies cube d) := rfl

theorem dimensions_eq_list (cube : Cube) : s.dimensions cube = s.list (.dimensions cube) := by
  unfold dimensions
  simp only [fetch_map]
  rfl

theorem levels_eq_list (cube : Cube) (h : Hierarchy) :
    s.levels cube h = s.list (.levels cube h) := by
  unfold levels
  simp only [fetch_map]
  rfl

theorem members_eq_list (cube : Cube) (l : Level) :
    s.members cube l = s.list (.members cube l) := by
  unfold members
  simp only [fetch_map]
  rfl

end Store

end Datacube
