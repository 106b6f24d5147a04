import Datacube.Schema.Object

/-!
# Providers of schema objects

A provider lists the objects that are directly contained in an object.  Its answers are
computations in a monad: answers that are fixed once for all live in `Outcome`, while a store
that asks an engine when an answer is first needed lives in a monad with state.  Objects refer
to those around them by unique name, so going upwards is a search through the lists.

## Main definitions

* `Provider` — a provider.
* `Provider.dimension`, `hierarchy`, `level`, `levelOf` — objects by their unique names.
-/

namespace Datacube

/-- Lists of the schema objects that are directly contained in an object. -/
structure Provider (m : Type → Type) where
  /-- The cube of a name or unique name, if there is one. -/
  cube : String → m (Option Cube)
  /-- The dimensions of a cube, the measures dimension among them. -/
  dimensions : Cube → m (List Dimension)
  hierarchies : Cube → Dimension → m (List Hierarchy)
  /-- The levels of a hierarchy from the root downwards. -/
  levels : Cube → Hierarchy → m (List Level)
  /-- The members of a level in order. -/
  members : Cube → Level → m (List Member)
  /-- The measures of a cube in order. -/
  measures : Cube → m (List Member)
  /-- How many generations below a member a search may descend: far more than there are in the
  metadata of any cube. -/
  generations : Nat := 1000000000000000000

namespace Provider

variable {m : Type → Type} [Monad m] [MonadExcept Fault m] (p : Provider m)

/-- The element of a list with the given unique name. -/
def pick {α : Type} [Labelled α] (objects : List α) (name : String) : m α :=
  match objects.find? fun a => uniqueName a == name with
  | some a => pure a
  | none => throw (.unresolvedIdentifier name)

/-- The dimension with the given unique name. -/
def dimension (cube : Cube) (name : String) : m Dimension := do
  pick (← p.dimensions cube) name

/-- The hierarchy with the given unique name in one of the dimensions. -/
def hierarchyIn (cube : Cube) (name : String) : List Dimension → m Hierarchy
  | [] => throw (.unresolvedIdentifier name)
  | d :: ds => do
    match (← p.hierarchies cube d).find? fun h => uniqueName h == name with
    | some h => pure h
    | none => hierarchyIn cube name ds

/-- The hierarchy with the given unique name. -/
def hierarchy (cube : Cube) (name : String) : m Hierarchy := do
  p.hierarchyIn cube name (← p.dimensions cube)

/-- The level of a hierarchy, both given by their unique names. -/
def level (cube : Cube) (hierarchyName levelName : String) : m Level := do
  let hierarchy ← p.hierarchy cube hierarchyName
  pick (← p.levels cube hierarchy) levelName

/-- The level of a member. -/
def levelOf (cube : Cube) (member : Member) : m Level :=
  p.level cube member.hierarchy member.level

end Provider

end Datacube
