import Datacube.Memory.Aggregate
import Datacube.Ordering
import Datacube.Plan.Basic
import Datacube.UniqueName.Uri

/-!
# Execution of plans in memory

The observations that lie below all members of a tuple of the dice are kept and grouped by
their ancestors at the roll-up levels.  An observation without a member at one of the levels is
in no group.  The result has a row for each group, in the order of their keys: the canonical
names of the ancestors, then the values of the measures.

## Main definitions

* `PlanParameters.ofPlan` — what the operators of a plan ask for.
* `MemoryCube.isDiced`, `MemoryCube.groupKey?` — whether an observation is kept, and its group.
* `MemoryCube.groups` — the groups.
* `MemoryCube.execute` — the result of a plan.
-/

namespace Datacube

/-! ### Parameters -/

/-- What the operators of a plan ask for. -/
structure PlanParameters where
  measures : List Member := []
  /-- The tuples of members below which observations are kept. -/
  dice : List (List Member) := []
  /-- The levels to which observations are rolled up. -/
  levels : List Level := []

namespace PlanParameters

/-- The parameters with those of one more operator, which replace earlier ones. -/
def update (q : PlanParameters) : Operator → Outcome PlanParameters
  | .project measures => return { q with measures := ← readMeasures measures }
  | .dice _ tuples => return { q with dice := ← tuples.mapM (readAll Member) }
  | .slice _ => return q
  | .rollup _ levels => return { q with levels := ← readAll Level levels }

/-- The parameters of a plan, from the outermost operator inwards. -/
def ofPlan (plan : Plan) : Outcome PlanParameters := plan.operators.foldlM update {}

end PlanParameters

namespace MemoryCube

variable (c : MemoryCube)

/-! ### Dice -/

/-- The member of the cube that a plan refers to. -/
def resolveMember (member : Member) : Outcome Member :=
  match c.member? member.label.uniqueName with
  | some a => .ok a
  | none => .error (.unresolvedIdentifier member.label.uniqueName)

/-- The members of an observation. -/
def factMembers (fact : Fact) : List Member := fact.members.filterMap c.member?

/-- Whether an observation lies below all members of a tuple. -/
def isBelow (fact : Fact) (tuple : List Member) : Bool :=
  tuple.all fun ancestor => (c.factMembers fact).any (c.isAncestorOrSelf ancestor)

/-- Whether a dice keeps an observation.  A dice without tuples keeps all of them. -/
def isDiced (dice : List (List Member)) (fact : Fact) : Bool :=
  dice.isEmpty || dice.any (c.isBelow fact)

/-! ### Roll-up -/

/-- The ancestor of an observation at a level: that of its first member in the hierarchy of the
level. -/
def factAncestor? (fact : Fact) (level : Level) : Option Member :=
  ((c.factMembers fact).find? fun member => member.hierarchy == level.hierarchy).bind
    fun member => c.ancestorAt? member level.depth

/-- The key of the group of an observation, if it has an ancestor at every level. -/
def groupKey? (levels : List Level) (fact : Fact) : Option (List String) :=
  levels.mapM fun level =>
    (c.factAncestor? fact level).map fun member => canonicalName member.label.uniqueName

/-- The order of keys: that of lists of texts by code points. -/
def keyLe (k l : List String) : Bool := !decide (l < k)

/-- The observations with their keys. -/
def keyedFacts (dice : List (List Member)) (levels : List Level) : List (List String × Fact) :=
  (c.facts.filter (c.isDiced dice)).filterMap fun fact =>
    (c.groupKey? levels fact).map fun key => (key, fact)

/-- The keys of all groups, each once and in order. -/
def groupKeys (keyed : List (List String × Fact)) : List (List String) :=
  sortBy keyLe (keyed.map Prod.fst).eraseDups

/-- The groups of observations with their keys, in the order of the keys.  Within a group the
observations are in the order of the cube. -/
def groups (dice : List (List Member)) (levels : List Level) :
    List (List String × List Fact) :=
  let keyed := c.keyedFacts dice levels
  (groupKeys keyed).map fun key =>
    (key, (keyed.filter fun (k, _) => k == key).map Prod.snd)

/-! ### The result -/

/-- The row of a group. -/
def groupRow (measures : List Member) (key : List String) (facts : List Fact) :
    Outcome (List Term) := do
  let values ← measures.mapM fun measure => do
    return valueTerm measure (← (MeasureScope.mk measures c.measures).value facts measure)
  return key.map Term.simple ++ values

/-- The header of a result. -/
def resultColumns (q : PlanParameters) : List String :=
  q.levels.map (fun level => level.label.uniqueName)
    ++ q.measures.map fun measure => measure.label.uniqueName

/-- The result of a plan. -/
def execute (plan : Plan) : Outcome RowSet := do
  let q ← PlanParameters.ofPlan plan
  let dice ← q.dice.mapM fun tuple => tuple.mapM c.resolveMember
  let rows ← (c.groups dice q.levels).mapM fun (key, facts) => c.groupRow q.measures key facts
  RowSet.ofRows? (resultColumns q) rows

end MemoryCube

end Datacube
