import Datacube.Engine.Restrictions
import Datacube.Plan.Basic

/-!
# Engines

An engine answers requests for schema objects and executes plans.  All its answers are row sets.
It may have a state of its own, so that its answers may change over time.

## Main definitions

* `Request` — what an engine is asked.
* `Engine` — an engine with states in a given type.
* `Engine.recorded` — an engine that keeps a record of its requests.
-/

namespace Datacube

/-- The collections of schema objects. -/
inductive Listing where
  | databases
  | catalogs
  | schemas
  | cubes
  | dimensions
  | measures
  | hierarchies
  | levels
  | members
  deriving DecidableEq, Repr

/-- What an engine is asked. -/
inductive Request where
  /-- The objects of a collection that satisfy restrictions. -/
  | list (listing : Listing) (restrictions : Restrictions)
  /-- The result of a plan: a row for each group of cells, first the canonical names of the
  members to which the plan rolls up, then the values of the projected measures. -/
  | execute (plan : Plan)
  deriving DecidableEq

/-- An engine whose states are of type `σ`. -/
abbrev Engine (σ : Type) := Request → StateM σ (Outcome RowSet)

namespace Engine

/-- The engine whose answers depend on the request alone. -/
def ofAnswers {σ : Type} (answers : Request → Outcome RowSet) : Engine σ :=
  fun request => pure (answers request)

@[simp] theorem ofAnswers_apply {σ : Type} (answers : Request → Outcome RowSet) (request : Request)
    (state : σ) : (ofAnswers answers : Engine σ) request state = (answers request, state) := rfl

/-- The engine that keeps a record of all its requests.  Requests are numbered from zero, and
those with a number in `failing` are refused before they reach the engine inside. -/
def recorded {σ : Type} (failing : List Nat) (engine : Engine σ) : Engine (List Request × σ) :=
  fun request (record, state) =>
    let (answer, state) :=
      if failing.contains record.length then
        (.error (.engine ("request " ++ record.length.repr ++ " failed")), state)
      else engine request state
    (answer, record ++ [request], state)

end Engine

end Datacube
