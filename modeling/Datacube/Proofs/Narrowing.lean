import Datacube.Proofs.CellValues
import Datacube.Proofs.MemoryLookups

/-!
# Slicers with fewer positions

A slicer restricts the observations of a cell to those below the members of one of its positions, so
with fewer positions there are fewer observations.  The exception is a slicer without positions: it
restricts nothing, as if there were none.

## Main definitions

* `Axis.Occupied` — whether every position of an axis has a member.
* `MemoryCube.tupleOf` — the tuple of a dice that stands for given members.
* `MemoryCube.gathered` — the observations that the execution of a plan gathers for a key.
* `CellSet.Asks` — what the plan of a result asks for.

## Main results

* `Connection.occupied_of_execute` — the positions of a slicer have members.
* `MemoryCube.isDiced_mono` — **more tuples keep more observations**, if there are any.
* `MemoryCube.gathered_eq` — these are the observations of the key.
* `MemoryEngine.exists_asks` — what the plan of a statement asks for.
* `MemoryEngine.narrowing` — **slicers with fewer positions** do not admit more observations to a
  cell; `MemoryEngine.not_narrowing` — a slicer without positions does.
-/

namespace Datacube

/-! ### Positions of the slicer -/

/-- Whether every position of an axis has a member. -/
def Axis.Occupied (axis : Axis) : Prop := ∀ position ∈ axis.positions, position.members ≠ []

namespace Value

theorem members_ne_nil_of_toPosition {ordinal : Nat} {v : Value} {position : Position}
    (h : v.toPosition ordinal = .ok position) : position.members ≠ [] := by
  unfold toPosition at h
  split at h
  · cases h
    exact List.cons_ne_nil _ _
  · obtain ⟨members, hmembers, rfl⟩ := Outcome.map_eq_ok.1 h
    cases Outcome.mapM_eq_ok.1 hmembers
    exact List.cons_ne_nil _ _
  · cases h

/-- Values describe positions with members only. -/
theorem occupied_of_toAxis {ordinal : AxisOrdinal} {v : Value} {axis : Axis}
    (h : v.toAxis ordinal = .ok axis) : axis.Occupied := by
  obtain ⟨positions, hpositions, rfl⟩ := Outcome.map_eq_ok.1 h
  intro position hposition
  obtain ⟨element, -, hread⟩ := exists_left_of_forall₂ (Outcome.mapM_eq_ok.1 hpositions) hposition
  exact members_ne_nil_of_toPosition hread

end Value

/-- **The positions of the slicer of a result have members.** -/
theorem Connection.occupied_of_execute {σ : Type} {c : Connection σ} {statement : Select Expr}
    {s : CellSet} (h : (c.run (·.execute statement)).1 = .ok s) : s.slicer.Occupied := by
  have hevaluated : s.slicer.Evaluated ∧ ∀ axis ∈ s.axes, axis.Evaluated :=
    (Connection.ensures_run (Store.evaluated_of_execute _ statement) trivial).2 s h
  obtain ⟨⟨ordinal, v, hv⟩, -⟩ := hevaluated
  exact Value.occupied_of_toAxis hv

namespace MemoryCube

variable {c : MemoryCube}

/-! ### The dice -/

/-- A dice without tuples keeps all observations. -/
@[simp] theorem isDiced_nil (c : MemoryCube) (fact : Fact) : c.isDiced [] fact = true := rfl

/-- **More tuples keep more observations**, if there are any: a dice without tuples keeps all of
them. -/
theorem isDiced_mono {dice dice' : List (List Member)} (hsub : dice ⊆ dice')
    (hempty : dice = [] → dice' = []) {fact : Fact} (h : c.isDiced dice fact = true) :
    c.isDiced dice' fact = true := by
  rw [isDiced, Bool.or_eq_true, List.isEmpty_iff, List.any_eq_true] at h ⊢
  rcases h with hnone | ⟨tuple, htuple, hbelow⟩
  · exact .inl (hempty hnone)
  · exact .inr ⟨tuple, hsub htuple, hbelow⟩

variable (c) in
/-- The tuple of a dice that stands for given members: their rows are read, and the members that are
read are looked up in the cube. -/
def tupleOf (members : List Member) : Outcome (List Member) := do
  (← members.mapM fun a => Record.read (rowOf a)).mapM c.resolveMember

/-- **The dice of a plan** has a tuple for each position of the slicer that has members. -/
theorem forall₂_tupleOf {parts : PlanParts} {cube : Cube} {slicer : Option Axis}
    {q : PlanParameters} {dice : List (List Member)}
    (hq : PlanParameters.ofPlan (parts.plan cube slicer) = .ok q)
    (hdice : (q.dice.mapM fun tuple => tuple.mapM c.resolveMember) = .ok dice) :
    List.Forall₂ (fun position tuple => c.tupleOf position.dimensionMembers = .ok tuple)
      (dicePositions slicer) dice := by
  obtain ⟨-, htuples, -⟩ := PlanParts.ofPlan_eq_ok.1 hq
  refine forall₂_trans ?_ htuples (Outcome.mapM_eq_ok.1 hdice)
  intro position tuple resolved hread hresolve
  exact Outcome.bind_eq_ok.2 ⟨tuple, Outcome.mapM_eq_ok.2 hread, hresolve⟩

/-! ### The observations of a key -/

variable (c) in
/-- The observations that the execution of a plan gathers for a key, in the order of the cube. -/
def gathered (plan : Plan) (key : CellKey) : Outcome (List Fact) := do
  let q ← PlanParameters.ofPlan plan
  let dice ← q.dice.mapM fun tuple => tuple.mapM c.resolveMember
  return ((c.groups dice q.levels).lookup key).getD []

/-- **The group of a key** has the observations of the key. -/
theorem lookup_groups (dice : List (List Member)) (levels : List Level) (key : List String) :
    ((c.groups dice levels).lookup key).getD [] = c.cellFacts dice levels key := by
  cases h : (c.groups dice levels).lookup key with
  | none =>
    have hnone := List.lookup_eq_none_iff.1 h
    by_contra hne
    have hgroup := mem_groups.2 ⟨rfl, fun hnil => hne hnil.symm⟩
    exact absurd (hnone _ hgroup) (by simp)
  | some facts =>
    obtain ⟨front, back, hsplit, -⟩ := List.lookup_eq_some_iff.1 h
    have hgroup : (key, facts) ∈ c.groups dice levels := by
      rw [hsplit]
      exact List.mem_append_right _ List.mem_cons_self
    exact (mem_groups.1 hgroup).1

theorem gathered_eq {plan : Plan} {q : PlanParameters} {dice : List (List Member)}
    (hq : PlanParameters.ofPlan plan = .ok q)
    (hdice : (q.dice.mapM fun tuple => tuple.mapM c.resolveMember) = .ok dice) (key : CellKey) :
    c.gathered plan key = .ok (c.cellFacts dice q.levels key) := by
  rw [gathered, hq]
  refine Outcome.bind_eq_ok.2 ⟨q, rfl, Outcome.bind_eq_ok.2 ⟨dice, hdice, ?_⟩⟩
  rw [lookup_groups]
  rfl

/-- If a dice keeps the observations that another one keeps, it has them for every key. -/
theorem cellFacts_sublist {dice dice' : List (List Member)}
    (h : ∀ fact, c.isDiced dice fact = true → c.isDiced dice' fact = true) (levels : List Level)
    (key : List String) :
    (c.cellFacts dice levels key).Sublist (c.cellFacts dice' levels key) :=
  (List.monotone_filter_right c.facts fun fact => h fact).filter _

end MemoryCube

/-! ### Statements over a cube in memory -/

/-- What the plan of a result asks for when it is executed on a cube. -/
structure CellSet.Asks (s : CellSet) (c : MemoryCube) (found : Findings) (q : PlanParameters)
    (dice : List (List Member)) : Prop where
  parameters : PlanParameters.ofPlan s.plan = .ok q
  resolved : (q.dice.mapM fun tuple => tuple.mapM c.resolveMember) = .ok dice
  /-- The dice has a tuple for each position of the slicer that has members. -/
  tuples : List.Forall₂ (fun position tuple => c.tupleOf position.dimensionMembers = .ok tuple)
    (dicePositions (some s.slicer)) dice
  /-- The levels of the roll-up are found for some members. -/
  found : ∀ l ∈ q.levels, ∃ a, found.level a l
  /-- The members of a cell are in these levels. -/
  levels : ∀ coordinates, List.Forall₂ (· < ·) coordinates s.sizes →
    (dimensionMembersAt s.axes coordinates).map Member.level
      = q.levels.map fun l => l.label.uniqueName

/-- The positions of a slicer without measures all have a tuple in the dice. -/
private theorem dicePositions_eq_positions {axis : Axis} (hoccupied : axis.Occupied)
    (hmeasures : ∀ position ∈ axis.positions, ∀ a ∈ position.members, a.isMeasure = false) :
    dicePositions (some axis) = axis.positions := by
  rw [dicePositions_eq_filter, Option.getD_some, List.filter_eq_self]
  intro position hposition
  have hall : position.dimensionMembers = position.members := by
    refine List.filter_eq_self.2 fun a ha => ?_
    rw [hmeasures position hposition a ha]
    rfl
  rw [hall, List.isEmpty_eq_false_iff.2 (hoccupied position hposition)]
  rfl

namespace MemoryEngine

section

variable {d : CubeDescription} {c : MemoryCube} {catalogName schemaName : String}
  {cubes : List MemoryCube}
  (honly : ∀ c' ∈ cubes, isNamed c'.cube c.cube.label.name = true → c' = c)

include honly

/-- **What the plan of a statement asks for**, after any uses of a connection. -/
theorem exists_asks (hbuilt : c.Built d) {config : Config} {calls : List Call}
    {statement : Select Expr} {s : CellSet}
    (h : ((((ofCubes catalogName schemaName cubes).connection config).after calls).run
      (·.execute statement)).1 = .ok s) (hname : s.cube.label.name = c.cube.label.name) :
    ∃ q dice, s.Asks c (((ofCubes catalogName schemaName cubes).connection config).store.findings
      (ofCubes catalogName schemaName cubes).answer c.cube) q dice := by
  obtain ⟨query, parts, rows, hfound, hanswer, hresult⟩ := executed_found h
  obtain ⟨hcube, haxes, hslicer, hplan⟩ := CellSet.fields_of_ofResult hresult
  rw [hcube] at hname
  rw [Store.findings_congr hname] at hfound
  -- execution reads the parameters of the plan and resolves the members of the dice
  have hexecute := execute_of_answer honly hname rfl hanswer
  obtain ⟨q, hq, hrest⟩ := Outcome.bind_eq_ok.1 hexecute
  obtain ⟨dice, hdice, -⟩ := Outcome.bind_eq_ok.1 hrest
  obtain ⟨hlevels, -, -⟩ := PlanParts.ofPlan_eq_ok.1 hq
  have hpart : ∀ l ∈ parts.levels, ∃ a,
      (((ofCubes catalogName schemaName cubes).connection config).store.findings
        (ofCubes catalogName schemaName cubes).answer c.cube).level a l := by
    rw [PlanParts.levels, List.forall_mem_map]
    intro part hpart
    obtain ⟨-, -, a, -, -, hlevel⟩ := hfound.exists_of_mem_rollup hpart
    exact ⟨a, hlevel⟩
  have hserved : ∀ l ∈ parts.levels, c.Serves (.level l) := by
    intro l hl
    obtain ⟨a, ha⟩ := hpart l hl
    exact (level_of_found honly rfl hbuilt ha).1
  have hsame : q.levels = parts.levels := MemoryCube.eq_of_served_levels hserved hlevels
  refine ⟨q, dice, hplan ▸ hq, hdice, ?_, hsame ▸ hpart, ?_⟩
  · rw [hslicer, dicePositions_eq_filter, Option.getD_some, ← dicePositions_eq_filter]
    exact MemoryCube.forall₂_tupleOf hq hdice
  · intro coordinates hcoordinates
    rw [CellSet.sizes] at hcoordinates
    rw [haxes] at hcoordinates ⊢
    rw [hsame, PlanParts.levels, List.map_map]
    refine levels_dimensionMembersAt (hfound.rollup.imp fun axis signature hrolls => ?_)
      hcoordinates
    intro position hposition
    refine hrolls.levels_eq (fun a l hlevel => ?_) hposition
    exact (level_of_found honly rfl hbuilt hlevel).2.2.1

/-- **Slicers with fewer positions do not admit more observations to a cell**, with one exception.
Two statements over a cube in memory are executed, after any uses of connections to its engine, and
no position of their slicers has a measure.  If the slicer of the first has no other positions than
that of the second, and is not empty unless that one is, then whatever is gathered for a cell of the
first is gathered for the cell of the second with the same members.  An empty slicer restricts
nothing: whatever is gathered for a cell of the second is then gathered for that of the first. -/
theorem narrowing (hbuild : d.build = .ok c) (config : Config) {calls calls' : List Call}
    {statement statement' : Select Expr} {s t : CellSet}
    (hs : ((((ofCubes catalogName schemaName cubes).connection config).after calls).run
      (·.execute statement)).1 = .ok s)
    (ht : ((((ofCubes catalogName schemaName cubes).connection config).after calls').run
      (·.execute statement')).1 = .ok t)
    (hsname : s.cube.label.name = c.cube.label.name)
    (htname : t.cube.label.name = c.cube.label.name)
    (hsmeasures : ∀ position ∈ s.slicer.positions, ∀ a ∈ position.members, a.isMeasure = false)
    (htmeasures : ∀ position ∈ t.slicer.positions, ∀ a ∈ position.members, a.isMeasure = false)
    (hsub : ∀ position ∈ s.slicer.positions,
      ∃ position' ∈ t.slicer.positions, position'.members = position.members)
    {coordinates coordinates' : List Nat} (hcoordinates : List.Forall₂ (· < ·) coordinates s.sizes)
    (hcoordinates' : List.Forall₂ (· < ·) coordinates' t.sizes)
    (hcell : dimensionMembersAt s.axes coordinates = dimensionMembersAt t.axes coordinates') :
    ∃ facts facts',
      c.gathered s.plan (CellSet.keyOf (s.positionsAt coordinates)) = .ok facts
      ∧ c.gathered t.plan (CellSet.keyOf (t.positionsAt coordinates')) = .ok facts'
      ∧ ((s.slicer.positions = [] → t.slicer.positions = []) → facts.Sublist facts')
      ∧ (s.slicer.positions = [] → facts'.Sublist facts) := by
  have hbuilt := CubeDescription.built hbuild
  obtain ⟨q, dice, hasks⟩ := exists_asks honly hbuilt hs hsname
  obtain ⟨q', dice', hasks'⟩ := exists_asks honly hbuilt ht htname
  -- both cells have the same key, at the same levels
  have hkey : CellSet.keyOf (t.positionsAt coordinates')
      = CellSet.keyOf (s.positionsAt coordinates) := by
    rw [CellSet.keyOf_positionsAt, CellSet.keyOf_positionsAt, hcell]
  have hnames : q'.levels.map (fun l => l.label.uniqueName)
      = q.levels.map fun l => l.label.uniqueName := by
    rw [← hasks'.levels _ hcoordinates', ← hasks.levels _ hcoordinates, hcell]
  have hlevels : q'.levels = q.levels := by
    refine eq_of_map_eq (fun l' hl' l hl hname => ?_) hnames
    obtain ⟨a, ha⟩ := hasks.found l hl
    obtain ⟨a', ha'⟩ := hasks'.found l' hl'
    exact level_eq_of_found honly rfl hbuilt ha' ha hname
  refine ⟨_, _, MemoryCube.gathered_eq hasks.parameters hasks.resolved _,
    MemoryCube.gathered_eq hasks'.parameters hasks'.resolved _, ?_⟩
  rw [hkey, hlevels]
  have htuples := hasks.tuples
  have htuples' := hasks'.tuples
  rw [dicePositions_eq_positions (Connection.occupied_of_execute hs) hsmeasures] at htuples
  rw [dicePositions_eq_positions (Connection.occupied_of_execute ht) htmeasures] at htuples'
  constructor
  · intro hempty
    have hsubset : dice ⊆ dice' := by
      intro tuple htuple
      obtain ⟨position, hposition, hread⟩ := exists_left_of_forall₂ htuples htuple
      obtain ⟨position', hposition', hmembers⟩ := hsub position hposition
      obtain ⟨tuple', htuple', hread'⟩ := exists_right_of_forall₂ htuples' hposition'
      -- a tuple depends on the members of its position only
      have hdimension : position'.dimensionMembers = position.dimensionMembers :=
        congrArg (List.filter _) hmembers
      rw [hdimension, hread] at hread'
      exact Except.ok.inj hread' ▸ htuple'
    refine MemoryCube.cellFacts_sublist (fun fact => MemoryCube.isDiced_mono hsubset ?_) _ _
    rintro rfl
    rw [List.forall₂_nil_right_iff] at htuples
    rw [hempty htuples, List.forall₂_nil_left_iff] at htuples'
    exact htuples'
  · intro hempty
    rw [hempty, List.forall₂_nil_left_iff] at htuples
    subst htuples
    exact MemoryCube.cellFacts_sublist (fun fact _ => c.isDiced_nil fact) _ _

end

/-- The sales of Austria, restricted by a slicer. -/
def austriaStatement (slicer : Expr) : Select Expr where
  definitions := []
  axes := [⟨.index 0, false, named ["Geo", "AT"]⟩]
  source := named ["Sales"]
  slicer := some slicer

/-- One year. -/
def oneYear : Expr := named ["Time", "2020"]

/-- Two years. -/
def twoYears : Expr := .call "\x7b\x7d" .braces [named ["Time", "2020"], named ["Time", "2021"]]

/-- A condition that does not hold. -/
def never : Expr := .call "AND" .binary [.literal (.text "false"), .literal (.text "false")]

/-- A year that is filtered out. -/
def noYear : Expr := .call "Filter" .function [named ["Time", "2020"], never]

/-- The sales of Austria with a slicer, on a new connection. -/
def austriaOutcome (slicer : Expr) : Outcome CellSet :=
  ((((ofCubes "LdCatalog" "LdSchema" [salesCube]).connection {}).after []).run
    (·.execute (austriaStatement slicer))).1

set_option maxRecDepth 100000 in
theorem isOk_noYear : (austriaOutcome noYear).isOk = true := by decide +kernel

set_option maxRecDepth 100000 in
theorem isOk_oneYear : (austriaOutcome oneYear).isOk = true := by decide +kernel

set_option maxRecDepth 100000 in
theorem isOk_twoYears : (austriaOutcome twoYears).isOk = true := by decide +kernel

/-- The sales of Austria in no year. -/
def noYearCells : CellSet := Outcome.get _ isOk_noYear

/-- The sales of Austria in one year. -/
def oneYearCells : CellSet := Outcome.get _ isOk_oneYear

/-- The sales of Austria in two years. -/
def twoYearsCells : CellSet := Outcome.get _ isOk_twoYears

set_option maxRecDepth 100000 in
/-- What is gathered for Austria in one year is gathered in two years. -/
theorem narrowing_years : ∃ facts facts',
    salesCube.gathered oneYearCells.plan (CellSet.keyOf (oneYearCells.positionsAt [0])) = .ok facts
      ∧ salesCube.gathered twoYearsCells.plan (CellSet.keyOf (twoYearsCells.positionsAt [0]))
        = .ok facts'
      ∧ facts.Sublist facts' := by
  have hs : ((((ofCubes "LdCatalog" "LdSchema" [salesCube]).connection {}).after []).run
      (·.execute (austriaStatement oneYear))).1 = .ok oneYearCells := Outcome.eq_ok_get isOk_oneYear
  have ht : ((((ofCubes "LdCatalog" "LdSchema" [salesCube]).connection {}).after []).run
      (·.execute (austriaStatement twoYears))).1 = .ok twoYearsCells :=
    Outcome.eq_ok_get isOk_twoYears
  obtain ⟨hsname, htname, hsmeasures, htmeasures, hsub, hsize, hsize', hcell, hne⟩ :
      oneYearCells.cube.label.name = salesCube.cube.label.name
        ∧ twoYearsCells.cube.label.name = salesCube.cube.label.name
        ∧ (∀ position ∈ oneYearCells.slicer.positions,
          ∀ a ∈ position.members, a.isMeasure = false)
        ∧ (∀ position ∈ twoYearsCells.slicer.positions,
          ∀ a ∈ position.members, a.isMeasure = false)
        ∧ (∀ position ∈ oneYearCells.slicer.positions,
          ∃ position' ∈ twoYearsCells.slicer.positions, position'.members = position.members)
        ∧ List.Forall₂ (· < ·) [0] oneYearCells.sizes
        ∧ List.Forall₂ (· < ·) [0] twoYearsCells.sizes
        ∧ dimensionMembersAt oneYearCells.axes [0] = dimensionMembersAt twoYearsCells.axes [0]
        ∧ oneYearCells.slicer.positions ≠ [] := by
    decide +kernel
  obtain ⟨facts, facts', hfacts, hfacts', hsublist, -⟩ :=
    narrowing (fun _ hc _ => List.mem_singleton.1 hc) build_sales {} hs ht hsname htname hsmeasures
      htmeasures hsub hsize hsize' hcell
  exact ⟨facts, facts', hfacts, hfacts', hsublist fun hempty => absurd hempty hne⟩

/-- The observations of Austria in a result. -/
def austriaFacts (s : CellSet) : Outcome (List Fact) :=
  salesCube.gathered s.plan (CellSet.keyOf (s.positionsAt [0]))

set_option maxRecDepth 100000 in
/-- **A slicer that keeps nothing restricts nothing.**  Its positions are among those of the slicer
with one year, and it admits an observation of another year to the cell. -/
theorem not_narrowing :
    austriaOutcome noYear = .ok noYearCells ∧ austriaOutcome oneYear = .ok oneYearCells
      ∧ noYearCells.axes = oneYearCells.axes
      ∧ (∀ position ∈ noYearCells.slicer.positions, position ∈ oneYearCells.slicer.positions)
      ∧ (∀ position ∈ oneYearCells.slicer.positions, position.measures = [])
      ∧ ∃ facts facts', austriaFacts noYearCells = .ok facts
        ∧ austriaFacts oneYearCells = .ok facts' ∧ ∃ fact ∈ facts, fact ∉ facts' := by
  obtain ⟨haxes, hwithin, hmeasures⟩ : noYearCells.axes = oneYearCells.axes
      ∧ (∀ position ∈ noYearCells.slicer.positions, position ∈ oneYearCells.slicer.positions)
      ∧ ∀ position ∈ oneYearCells.slicer.positions, position.measures = [] := by
    decide +kernel
  have hgathered : (austriaFacts noYearCells >>= fun facts => (fun facts' =>
      decide (∃ fact ∈ facts, fact.members ∉ facts'.map Fact.members))
        <$> austriaFacts oneYearCells) = .ok true := by
    decide +kernel
  obtain ⟨facts, hfacts, hgathered⟩ := Outcome.bind_eq_ok.1 hgathered
  obtain ⟨facts', hfacts', fact, hfact, hother⟩ := Outcome.exists_of_map_decide hgathered
  exact ⟨Outcome.eq_ok_get _, Outcome.eq_ok_get _, haxes, hwithin, hmeasures, facts, facts', hfacts,
    hfacts', fact, hfact, fun hmem => hother (List.mem_map_of_mem hmem)⟩

end MemoryEngine

end Datacube
