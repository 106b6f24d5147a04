import Datacube.Schema.Container
import Datacube.Schema.Member

/-!
# Cubes in memory

A cube whose schema objects and observations are held in memory, and the navigation between a
member and those above it.

## Main definitions

* `Fact` — an observation.
* `MemoryCube` — a cube.
* `MemoryCube.member?`, `ancestorAt?`, `isAncestorOrSelf` — members by name, and the members above.
-/

namespace Datacube

/-- An observation of a cube. -/
structure Fact where
  /-- The unique names of the members that the observation refers to. -/
  members : List String
  /-- The values by the unique names of their measures; the last value of a measure counts. -/
  values : List (String × Float)

/-- The value of a measure. -/
def Fact.value? (f : Fact) (measure : String) : Option Float := f.values.reverse.lookup measure

/-- A cube in memory. -/
structure MemoryCube where
  cube : Cube
  dimensions : List Dimension
  hierarchies : List Hierarchy
  levels : List Level
  members : List Member
  measures : List Member
  facts : List Fact

/-- The last member of a list with the given unique name. -/
def lastNamed? (members : List Member) (name : String) : Option Member :=
  members.reverse.find? fun member => member.label.uniqueName == name

namespace MemoryCube

variable (c : MemoryCube)

/-- The member with the given unique name. -/
def member? (name : String) : Option Member := lastNamed? c.members name

/-- The member at the given depth that is reached from a member by at most `fuel` steps
upwards. -/
def climb (depth : Nat) : Nat → Member → Option Member
  | fuel, member =>
    if member.depth = depth then some member
    else if member.depth < depth then none
    else match fuel, member.parent with
      | fuel + 1, some parent => (c.member? parent).bind (climb depth fuel)
      | _, _ => none

/-- The member at the given depth among a member and those above it.  The unique name of a member
extends the one of its parent, so the length of the name bounds the number of steps. -/
def ancestorAt? (member : Member) (depth : Nat) : Option Member :=
  (c.member? member.label.uniqueName).bind (c.climb depth member.label.uniqueName.length)

/-- Whether `ancestor` is a member itself or one of those above it. -/
def isAncestorOrSelf (ancestor member : Member) : Bool :=
  ancestor.hierarchy == member.hierarchy
    && match c.ancestorAt? member ancestor.depth with
      | some a => a.label.uniqueName == ancestor.label.uniqueName
      | none => false

end MemoryCube

end Datacube
