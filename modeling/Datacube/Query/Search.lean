import Datacube.Provider
import Datacube.Query.Context

/-!
# Resolution of identifiers

An identifier names a definition of the query or a schema object.  The segments of the name of
an object are looked up one after the other, from the cube downwards; each names an object
anywhere below the one found before, where direct children come first and the other descendants
follow generation by generation.

A search that begins above the members does not look below members: all members are listed by
their levels.  A search that begins at a member may descend any number of generations, and
metadata in which a member is its own descendant would keep it going; `Provider.generations`
bounds it.

## Main definitions

* `Provider.children` — the objects directly contained in an object.
* `Provider.descend` — the search through the generations below some objects.
* `Provider.find` — the object below another one that a segment names.
* `Provider.resolve` — the value of an identifier.
-/

namespace Datacube

namespace Provider

variable {m : Type → Type} [Monad m] [MonadExcept Fault m] (p : Provider m)

/-! ### Children -/

/-- The members of a level.  Those of the measures level are the measures of the cube. -/
def levelMembers (cube : Cube) (level : Level) : m (List Member) := do
  match (← p.measures cube).filter fun a => a.level == level.label.uniqueName with
  | [] => p.members cube level
  | measures => pure measures

/-- The members of the next level below a member.  A measure has none.  The depth of that level is a
number without a bound, while depths that are read are counts. -/
def memberChildren (cube : Cube) (member : Member) : m (List Member) := do
  if member.isMeasure then return []
  let hierarchy ← p.hierarchy cube member.hierarchy
  match (← p.levels cube hierarchy).find? fun l => l.depth == member.depth + 1 with
  | none => return []
  | some level =>
    return (← p.members cube level).filter fun a => a.parent == some member.label.uniqueName

/-- The objects directly contained in an object. -/
def children (cube : Cube) : SchemaObject → m (List SchemaObject)
  | .cube _ => return (← p.dimensions cube).map .dimension
  | .dimension d => return (← p.hierarchies cube d).map .hierarchy
  | .hierarchy h => return (← p.levels cube h).map .level
  | .level l => return (← p.levelMembers cube l).map .member
  | .member a => return (← p.memberChildren cube a).map .member

/-! ### Descendants -/

/-- Looks for the segment among the children of objects.  The answer is the first child that it
names or, if there is none, all the children. -/
def searchChildren (cube : Cube) (segment : String) :
    List SchemaObject → m (SchemaObject ⊕ List SchemaObject)
  | [] => pure (.inr [])
  | o :: os => do
    let children ← p.children cube o
    match children.find? fun child => child.isNamed segment with
    | some child => pure (.inl child)
    | none =>
      match ← searchChildren cube segment os with
      | .inl found => pure (.inl found)
      | .inr rest => pure (.inr (children ++ rest))

/-- Looks for the segment among the descendants of the objects that `expands` admits,
generation by generation. -/
def descend (expands : SchemaObject → Bool) (cube : Cube) (segment : String) :
    Nat → List SchemaObject → m (Option SchemaObject)
  | fuel, generation =>
    match generation.filter expands with
    | [] => pure none
    | o :: os =>
      match fuel with
      | 0 => throw (.searchTooDeep segment)
      | fuel + 1 => do
        match ← p.searchChildren cube segment (o :: os) with
        | .inl found => pure (some found)
        | .inr next => descend expands cube segment fuel next

/-- Whether an object is other than a member. -/
def isContainer : SchemaObject → Bool
  | .member _ => false
  | _ => true

/-- The object below `parent` that a segment names.  Members are searched for descendants only if
the search begins at a member. -/
def find (cube : Cube) (parent : SchemaObject) (segment : String) : m (Option SchemaObject) := do
  let children ← p.children cube parent
  match children.find? fun child => child.isNamed segment with
  | some child => pure (some child)
  | none =>
    if isContainer parent then p.descend isContainer cube segment parent.rank children
    else p.descend (fun _ => true) cube segment p.generations children

/-! ### Identifiers -/

/-- The object that segments lead to from an object.  A segment that names nothing ends the way,
and the object found so far is the answer. -/
def follow (cube : Cube) (o : SchemaObject) : List String → m SchemaObject
  | [] => pure o
  | segment :: segments => do
    match ← p.find cube o segment with
    | some next => follow cube next segments
    | none => pure o

/-- The object of a cube that an identifier names.  At least its first segment has to name an
object. -/
def resolveObject (cube : Cube) (identifier : Identifier) : m SchemaObject :=
  match identifier.segments with
  | [] => throw (.unresolvedIdentifier identifier.uniqueName)
  | segment :: segments => do
    match ← p.find cube (.cube cube) segment with
    | some next => p.follow cube next segments
    | none => throw (.unresolvedIdentifier identifier.uniqueName)

/-- The value of an identifier: a calculated member, a named set, or a schema object. -/
def resolve (identifier : Identifier) (c : Context) : m Value :=
  match c.member? identifier.uniqueName with
  | some member => pure (.object (.member member))
  | none =>
    match c.set? identifier.uniqueName with
    | some value => pure value
    | none => do return .object (← p.resolveObject (← c.requireCube) identifier)

end Provider

end Datacube
