import Datacube.Query.Value

/-!
# Evaluation contexts

What an expression may refer to besides the schema objects: the definitions of the query and the
element that a filter is testing.

## Main definitions

* `Context` — a context; `withMember`, `withSet`, `within` — larger ones.
* `Context.member?`, `Context.set?` — definitions by their unique names.
-/

namespace Datacube

/-- What an expression may refer to. -/
structure Context where
  /-- The cube that is queried; absent outside of a query. -/
  cube : Option Cube := none
  /-- The calculated members in the order of their definition. -/
  members : List Member := []
  /-- The named sets in the order of their definition, by unique name. -/
  sets : List (String × Value) := []
  /-- The element that a filter is testing; absent outside of a filter. -/
  current : Option Value := none

namespace Context

/-- The context of a query before its definitions. -/
def ofCube (cube : Cube) : Context := { cube := some cube }

/-- The calculated member with the given unique name, the first one defined. -/
def member? (c : Context) (name : String) : Option Member :=
  c.members.find? fun m => m.label.uniqueName == name

/-- The named set with the given unique name, the last one defined. -/
def set? (c : Context) (name : String) : Option Value :=
  (c.sets.reverse.find? fun (n, _) => n == name).map Prod.snd

/-- The context after the definition of a calculated member. -/
def withMember (c : Context) (member : Member) : Context :=
  { c with members := c.members ++ [member] }

/-- The context after the definition of a named set. -/
def withSet (c : Context) (name : String) (value : Value) : Context :=
  { c with sets := c.sets ++ [(name, value)] }

/-- The context in which a filter tests an element. -/
def within (c : Context) (element : Value) : Context := { c with current := some element }

@[simp] theorem cube_within (c : Context) (element : Value) : (c.within element).cube = c.cube := rfl

@[simp] theorem current_within (c : Context) (element : Value) :
    (c.within element).current = some element := rfl

@[simp] theorem within_within (c : Context) (x y : Value) : (c.within x).within y = c.within y := rfl

@[simp] theorem member?_within (c : Context) (element : Value) (name : String) :
    (c.within element).member? name = c.member? name := rfl

@[simp] theorem set?_within (c : Context) (element : Value) (name : String) :
    (c.within element).set? name = c.set? name := rfl

@[simp] theorem member?_withSet (c : Context) (n : String) (value : Value) (name : String) :
    (c.withSet n value).member? name = c.member? name := rfl

@[simp] theorem set?_withMember (c : Context) (member : Member) (name : String) :
    (c.withMember member).set? name = c.set? name := rfl

theorem set?_withSet (c : Context) (n : String) (value : Value) (name : String) :
    (c.withSet n value).set? name = if n = name then some value else c.set? name := by
  by_cases h : n = name <;> simp [set?, withSet, h]

variable {m : Type → Type} [Monad m] [MonadExcept Fault m]

/-- The cube that is queried. -/
def requireCube (c : Context) : m Cube :=
  match c.cube with
  | some cube => pure cube
  | none => throw (.unsupportedOperation "Evaluating an expression outside of a query")

end Context

end Datacube
