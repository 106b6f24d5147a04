import Datacube.Proofs.KeyOrders
import Datacube.Proofs.RollUps

/-!
# The rows of a result partition the observations

An observation is kept by a dice if it lies below all members of one of the tuples, and it
contributes to a result if it has an ancestor at every level to which the plan rolls up.  It then
contributes to one row only: the one whose key has the canonical names of these ancestors.  Nothing
is asked of the names in a cube, so several members may share a unique name, and a name stands for
the last of them.

## Main definitions

* `Plan.Asks` — what a plan with at most one operator of each kind asks for.
* `MemoryCube.Ascends` — whether going up from a member leads to another one at a depth.
* `MemoryCube.Under`, `MemoryCube.Kept` — whether an observation is kept by a dice.
* `MemoryCube.RolledTo`, `MemoryCube.Contributes` — the ancestor of an observation at a level, and
  the key of the row to which it contributes.
* `MemoryCube.Partitioned` — how the rows of a result partition the observations.

## Main results

* `Plan.asks_of_ofPlan` — the parameters of a plan are those of its operators.
* `MemoryCube.ancestorAt?_eq_some_iff_ascends` — **climbing leads to the ancestor**, and it ends.
* `MemoryCube.isDiced_iff_kept` — **what a dice keeps**.
* `MemoryCube.groupKey?_eq_some_iff_rolledTo` — **the key of an observation**.
* `MemoryCube.execute_partitions` — **the rows of a result partition the observations**.
-/

namespace Datacube

/-! ### Parameters of a plan -/

/-- What a plan with at most one operator of each kind asks for: the parameters of its operators,
and nothing where it has no such operator. -/
structure Plan.Asks (plan : Plan) (q : PlanParameters) : Prop where
  measures : ∀ rows, .project rows ∈ plan.operators → readMeasures rows = .ok q.measures
  noMeasures : (∀ rows, .project rows ∉ plan.operators) → q.measures = []
  dice : ∀ hierarchies tuples, .dice hierarchies tuples ∈ plan.operators →
    tuples.mapM (readAll Member) = .ok q.dice
  noDice : (∀ hierarchies tuples, .dice hierarchies tuples ∉ plan.operators) → q.dice = []
  levels : ∀ hierarchies levels, .rollup hierarchies levels ∈ plan.operators →
    readAll Level levels = .ok q.levels
  noLevels : (∀ hierarchies levels, .rollup hierarchies levels ∉ plan.operators) → q.levels = []

namespace PlanParameters

section

variable {α : Type} {field : PlanParameters → α} {name : String}
  (hkeeps : ∀ q op q', op.name ≠ name → update q op = .ok q' → field q' = field q)

include hkeeps

/-- A parameter that operators of one kind set stays as it is without them. -/
private theorem field_eq_of_forall_ne {ops : List Operator} {q q' : PlanParameters}
    (h : ops.foldlM update q = .ok q') (hne : ∀ op ∈ ops, op.name ≠ name) : field q' = field q := by
  induction ops generalizing q with
  | nil =>
    cases h
    rfl
  | cons op ops ih =>
    obtain ⟨hop, hops⟩ := List.forall_mem_cons.1 hne
    obtain ⟨q₁, hq₁, hrest⟩ := Outcome.bind_eq_ok.1 h
    exact (ih hrest hops).trans (hkeeps _ _ _ hop hq₁)

/-- A parameter is what the only operator of its kind sets. -/
private theorem field_eq_of_mem {ops : List Operator} {q q' : PlanParameters}
    (h : ops.foldlM update q = .ok q') (hn : (ops.map Operator.name).Nodup) {op : Operator}
    (hop : op ∈ ops) (hname : op.name = name) : ∃ q₁ q₂, update q₁ op = .ok q₂
      ∧ field q' = field q₂ := by
  induction ops generalizing q with
  | nil => cases hop
  | cons op' ops ih =>
    obtain ⟨hnot, hops⟩ := List.nodup_cons.1 hn
    obtain ⟨q₁, hq₁, hrest⟩ := Outcome.bind_eq_ok.1 h
    rcases List.mem_cons.1 hop with rfl | hop
    · refine ⟨q, q₁, hq₁, field_eq_of_forall_ne hkeeps hrest fun op' hop' hsame => hnot ?_⟩
      rw [hname, ← hsame]
      exact List.mem_map_of_mem hop'
    · exact ih hrest hops hop

end

theorem measures_update (q : PlanParameters) (op : Operator) (q' : PlanParameters)
    (hne : op.name ≠ "Projection") (h : update q op = .ok q') : q'.measures = q.measures := by
  cases op with
  | project => exact absurd rfl hne
  | slice => cases h; rfl
  | dice | rollup =>
    obtain ⟨_, -, h⟩ := Outcome.bind_eq_ok.1 h
    cases h
    rfl

private theorem dice_update (q : PlanParameters) (op : Operator) (q' : PlanParameters)
    (hne : op.name ≠ "Dice") (h : update q op = .ok q') : q'.dice = q.dice := by
  cases op with
  | dice => exact absurd rfl hne
  | slice => cases h; rfl
  | project | rollup =>
    obtain ⟨_, -, h⟩ := Outcome.bind_eq_ok.1 h
    cases h
    rfl

theorem levels_update (q : PlanParameters) (op : Operator) (q' : PlanParameters)
    (hne : op.name ≠ "Rollup") (h : update q op = .ok q') : q'.levels = q.levels := by
  cases op with
  | rollup => exact absurd rfl hne
  | slice => cases h; rfl
  | project | dice =>
    obtain ⟨_, -, h⟩ := Outcome.bind_eq_ok.1 h
    cases h
    rfl

end PlanParameters

open PlanParameters in
/-- **The parameters of a plan** are those of its operators, if none of them has a rival. -/
theorem Plan.asks_of_ofPlan {plan : Plan} {q : PlanParameters}
    (hn : (plan.operators.map Operator.name).Nodup) (h : ofPlan plan = .ok q) : plan.Asks q where
  measures rows hmem := by
    obtain ⟨_, _, hset, heq⟩ := field_eq_of_mem measures_update h hn hmem rfl
    obtain ⟨measures, hmeasures, hset⟩ := Outcome.bind_eq_ok.1 hset
    cases hset
    rw [heq, hmeasures]
  noMeasures hnone := by
    refine field_eq_of_forall_ne measures_update h fun op hop => ?_
    cases op with
    | project rows => exact absurd hop (hnone rows)
    | dice | slice | rollup => simp [Operator.name]
  dice hierarchies tuples hmem := by
    obtain ⟨_, _, hset, heq⟩ := field_eq_of_mem dice_update h hn hmem rfl
    obtain ⟨dice, hdice, hset⟩ := Outcome.bind_eq_ok.1 hset
    cases hset
    rw [heq, hdice]
  noDice hnone := by
    refine field_eq_of_forall_ne dice_update h fun op hop => ?_
    cases op with
    | dice hierarchies tuples => exact absurd hop (hnone hierarchies tuples)
    | project | slice | rollup => simp [Operator.name]
  levels hierarchies levels hmem := by
    obtain ⟨_, _, hset, heq⟩ := field_eq_of_mem levels_update h hn hmem rfl
    obtain ⟨levels, hlevels, hset⟩ := Outcome.bind_eq_ok.1 hset
    cases hset
    rw [heq, hlevels]
  noLevels hnone := by
    refine field_eq_of_forall_ne levels_update h fun op hop => ?_
    cases op with
    | rollup hierarchies levels => exact absurd hop (hnone hierarchies levels)
    | project | dice | slice => simp [Operator.name]

namespace MemoryCube

/-! ### Going up -/

variable (c : MemoryCube)

/-- Whether going from a member to its parent, as long as it is deeper than the given depth, leads
to another one at that depth.  If unique names tell members apart, these are the members at that
depth which it reaches. -/
inductive Ascends (depth : Nat) : Member → Member → Prop where
  | here {m : Member} : m.depth = depth → Ascends depth m m
  | up {m p a : Member} {name : String} : depth < m.depth → m.parent = some name →
    c.member? name = some p → Ascends depth p a → Ascends depth m a

variable {c} {d : CubeDescription}

/-- A member that is found by a name is found by its own name. -/
theorem member?_of_member? {name : String} {m : Member} (h : c.member? name = some m) :
    c.member? m.label.uniqueName = some m := by
  rwa [(mem_of_member? h).2]

theorem member?_of_mem_factMembers {fact : Fact} {m : Member} (h : m ∈ c.factMembers fact) :
    c.member? m.label.uniqueName = some m := by
  obtain ⟨name, -, hname⟩ := List.mem_filterMap.1 h
  exact member?_of_member? hname

theorem Ascends.member? {depth : Nat} {m a : Member} (h : c.Ascends depth m a)
    (hm : c.member? m.label.uniqueName = some m) : c.member? a.label.uniqueName = some a := by
  induction h with
  | here => exact hm
  | up _ _ hp _ ih => exact ih (member?_of_member? hp)

/-- What climbing finds lies above. -/
theorem ascends_of_climb {depth fuel : Nat} {m a : Member} (h : c.climb depth fuel m = some a) :
    c.Ascends depth m a := by
  induction fuel generalizing m with
  | zero =>
    unfold climb at h
    split at h
    · cases h
      exact .here ‹_›
    · split at h <;> cases h
  | succ fuel ih =>
    unfold climb at h
    split at h
    · cases h
      exact .here ‹_›
    split at h
    · cases h
    split at h
    · rename_i _ _ name heq hname
      cases heq
      obtain ⟨p, hp, h⟩ := Option.bind_eq_some_iff.1 h
      exact .up (by omega) hname hp (ih h)
    · cases h

/-- What lies above is found by climbing: unique names become shorter from parent to parent, so as
many steps as the name is long suffice. -/
theorem climb_of_ascends (hc : c.Built d) {depth : Nat} {m a : Member} (h : c.Ascends depth m a)
    (hm : m ∈ c.members) {fuel : Nat} (hfuel : m.label.uniqueName.length ≤ fuel) :
    c.climb depth fuel m = some a := by
  induction h generalizing fuel with
  | here hdepth =>
    unfold climb
    exact if_pos hdepth
  | @up m p a name hdepth hname hp _ ih =>
    obtain ⟨hpmem, hpname⟩ := mem_of_member? hp
    obtain ⟨hlength, -⟩ := (hc.members m hm).parent name hname
    cases fuel with
    | zero => omega
    | succ fuel =>
      unfold climb
      rw [if_neg (by omega), if_neg (by omega), hname]
      dsimp only
      rw [hp, Option.bind_some]
      exact ih hpmem (by rw [hpname]; omega)

/-- **Climbing leads to the ancestor** of a member at a depth, if there is one. -/
theorem ancestorAt?_eq_some_iff_ascends (hc : c.Built d) {m a : Member} {depth : Nat}
    (hm : c.member? m.label.uniqueName = some m) :
    c.ancestorAt? m depth = some a ↔ c.Ascends depth m a := by
  rw [ancestorAt?, hm, Option.bind_some]
  constructor
  · exact ascends_of_climb
  · exact fun h => climb_of_ascends hc h (mem_of_member? hm).1 (Nat.le_refl _)

/-- Among members that unique names tell apart, going up leads to whatever is above. -/
theorem ascends_iff_reaches (hn : (c.members.map fun m => m.label.uniqueName).Nodup)
    (hc : c.Built d) {m a : Member} {depth : Nat} (hm : m ∈ c.members) :
    c.Ascends depth m a ↔ c.Reaches m a ∧ a.depth = depth := by
  rw [← ancestorAt?_eq_some_iff_ascends hc (member?_uniqueName hn hm),
    ancestorAt?_eq_some_iff hn hc hm]

/-! ### Observations -/

variable (c)

/-- Whether an observation lies below the member that a name stands for, that is, whether going up
from a member of the same hierarchy to which the observation refers leads to that member. -/
def Under (fact : Fact) (name : String) : Prop :=
  ∃ a m, c.member? name = some a ∧ m ∈ c.factMembers fact ∧ a.hierarchy = m.hierarchy
    ∧ c.Ascends a.depth m a

/-- Whether a dice keeps an observation: there are no tuples, or it lies below all members of one
of them. -/
def Kept (dice : List (List Member)) (fact : Fact) : Prop :=
  dice = [] ∨ ∃ tuple ∈ dice, ∀ a ∈ tuple, c.Under fact a.label.uniqueName

/-- Whether a member is the ancestor of an observation at a level, going up from the first member
in the hierarchy of the level to which the observation refers. -/
def RolledTo (fact : Fact) (level : Level) (a : Member) : Prop :=
  ∃ m, (c.factMembers fact).find? (fun m => m.hierarchy == level.hierarchy) = some m
    ∧ c.Ascends level.depth m a

/-- Whether an observation contributes to the row with the given key: it is kept, and the key has
the canonical names of its ancestors at the levels. -/
def Contributes (q : PlanParameters) (fact : Fact) (key : List String) : Prop :=
  c.Kept q.dice fact ∧ List.Forall₂ (fun level name =>
    ∃ a, c.RolledTo fact level a ∧ canonicalName a.label.uniqueName = name) q.levels key

variable {c}

/-- Among members that unique names tell apart, these are the observations below a member. -/
theorem under_iff_liesBelow (hn : (c.members.map fun m => m.label.uniqueName).Nodup)
    (hc : c.Built d) {fact : Fact} {name : String} : c.Under fact name ↔ c.LiesBelow fact name := by
  refine exists₂_congr fun a m => and_congr_right fun _ => and_congr_right fun hm => ?_
  rw [ascends_iff_reaches hn hc (mem_of_mem_factMembers hm), and_iff_left rfl]

theorem isAncestorOrSelf_iff_ascends (hc : c.Built d) {a m : Member}
    (ha : c.member? a.label.uniqueName = some a) (hm : c.member? m.label.uniqueName = some m) :
    c.isAncestorOrSelf a m = true ↔ a.hierarchy = m.hierarchy ∧ c.Ascends a.depth m a := by
  rw [isAncestorOrSelf, Bool.and_eq_true, beq_iff_eq]
  refine and_congr_right fun _ => ?_
  constructor
  · intro h
    split at h
    · rename_i b hb
      have hascends := (ancestorAt?_eq_some_iff_ascends hc hm).1 hb
      -- both members are found by the same name
      have hsame := hascends.member? hm
      rw [eq_of_beq h, ha] at hsame
      obtain rfl := Option.some.inj hsame
      exact hascends
    · cases h
  · intro h
    rw [(ancestorAt?_eq_some_iff_ascends hc hm).2 h]
    exact BEq.rfl

/-- **What a dice keeps**; its members have been looked up in the cube. -/
theorem isDiced_iff_kept (hc : c.Built d) {dice found : List (List Member)}
    (hfound : (dice.mapM fun tuple => tuple.mapM c.resolveMember) = .ok found) (fact : Fact) :
    c.isDiced found fact = true ↔ c.Kept dice fact := by
  have hresolve : ∀ {a b}, c.resolveMember a = .ok b →
      c.member? a.label.uniqueName = some b := by
    intro a b h
    rw [resolveMember] at h
    split at h
    · cases h
      assumption
    · cases h
  have hmember : ∀ a b, c.resolveMember a = .ok b →
      ((c.factMembers fact).any (c.isAncestorOrSelf b) = true
        ↔ c.Under fact a.label.uniqueName) := by
    intro a b h
    have hb := member?_of_member? (hresolve h)
    rw [List.any_eq_true]
    constructor
    · rintro ⟨m, hm, habove⟩
      obtain ⟨hhierarchy, hascends⟩ :=
        (isAncestorOrSelf_iff_ascends hc hb (member?_of_mem_factMembers hm)).1 habove
      exact ⟨b, m, hresolve h, hm, hhierarchy, hascends⟩
    · rintro ⟨b', m, hb', hm, hhierarchy, hascends⟩
      obtain rfl := Option.some.inj (hb'.symm.trans (hresolve h))
      exact ⟨m, hm, (isAncestorOrSelf_iff_ascends hc hb (member?_of_mem_factMembers hm)).2
        ⟨hhierarchy, hascends⟩⟩
  have htuple : ∀ (tuple tuple' : List Member), tuple.mapM c.resolveMember = .ok tuple' →
      (c.isBelow fact tuple' = true ↔ ∀ a ∈ tuple, c.Under fact a.label.uniqueName) := by
    intro tuple tuple' h
    rw [isBelow, List.all_eq_true]
    exact (forall_mem_iff_of_forall₂
      ((Outcome.mapM_eq_ok.1 h).imp fun a b hab => (hmember a b hab).symm)).symm
  have hrelated := Outcome.mapM_eq_ok.1 hfound
  rw [isDiced, Bool.or_eq_true, List.isEmpty_iff, List.any_eq_true, Kept]
  refine or_congr ?_ (exists_mem_iff_of_forall₂
    (hrelated.imp fun tuple tuple' h => (htuple tuple tuple' h).symm)).symm
  rw [← List.length_eq_zero_iff, ← List.length_eq_zero_iff, hrelated.length_eq]

/-- **The ancestor of an observation** at a level is reached by going up. -/
theorem factAncestor?_eq_some_iff_rolledTo (hc : c.Built d) {fact : Fact} {level : Level}
    {a : Member} : c.factAncestor? fact level = some a ↔ c.RolledTo fact level a := by
  rw [factAncestor?, Option.bind_eq_some_iff, RolledTo]
  refine exists_congr fun m => and_congr_right fun hm => ?_
  have hmem := List.mem_of_find?_eq_some hm
  exact ancestorAt?_eq_some_iff_ascends hc (member?_of_mem_factMembers hmem)

/-- **The key of an observation** has the canonical names of its ancestors. -/
theorem groupKey?_eq_some_iff_rolledTo (hc : c.Built d) {levels : List Level} {fact : Fact}
    {key : List String} : c.groupKey? levels fact = some key ↔ List.Forall₂ (fun level name =>
      ∃ a, c.RolledTo fact level a ∧ canonicalName a.label.uniqueName = name) levels key := by
  simp only [groupKey?_eq_some, factAncestor?_eq_some_iff_rolledTo hc]

/-! ### The rows of a result -/

/-- The key columns of a row. -/
def rowKey (q : PlanParameters) (row : List Term) : List String :=
  (row.take q.levels.length).map Term.value

variable (c) in
/-- How the rows of a result partition the observations of a cube. -/
structure Partitioned (q : PlanParameters) (result : RowSet) : Prop where
  columns : result.columns = resultColumns q
  /-- The keys increase strictly, so no key is repeated. -/
  keys : (result.rows.map (rowKey q)).Pairwise KeyBefore
  /-- An observation contributes to the result if and only if it is kept and has an ancestor at
  every level. -/
  contributes : ∀ fact ∈ c.facts,
    (∃ row ∈ result.rows, c.Contributes q fact (rowKey q row)) ↔
      c.Kept q.dice fact ∧ ∀ level ∈ q.levels, ∃ a, c.RolledTo fact level a
  /-- It then contributes to one row only, the one with its key. -/
  once : ∀ fact ∈ c.facts, ∀ key, c.Contributes q fact key → ∃ front row back,
    result.rows = front ++ row :: back ∧ rowKey q row = key
      ∧ ∀ row' ∈ front ++ back, ¬ c.Contributes q fact (rowKey q row')
  /-- Every row has an observation, and its measures are computed from the observations that
  contribute to it, in the order in which the cube has them. -/
  rows : ∀ row ∈ result.rows, ∃ (contributes : Fact → Bool) (values : List (Option Float)),
    (∀ fact ∈ c.facts, contributes fact = true ↔ c.Contributes q fact (rowKey q row))
      ∧ c.facts.filter contributes ≠ []
      ∧ List.Forall₂ (fun a x => (MeasureScope.mk q.measures c.measures).value
          (c.facts.filter contributes) a = .ok x) q.measures values
      ∧ row = (rowKey q row).map Term.simple ++ List.zipWith valueTerm q.measures values

theorem rowKey_groupRow {q : PlanParameters} {key : List String} {facts : List Fact}
    {row : List Term} (h : c.groupRow q.measures key facts = .ok row)
    (hlength : key.length = q.levels.length) : rowKey q row = key := by
  obtain ⟨values, -, rfl⟩ := groupRow_eq_ok.1 h
  rw [rowKey, ← hlength, ← List.length_map Term.simple, List.take_left, List.map_map]
  exact List.map_id _

section

variable {q : PlanParameters} {dice : List (List Member)} {fact : Fact} {key : List String}

/-- An observation has a key if and only if it is kept and has an ancestor at every level. -/
theorem exists_contributes_iff : (∃ key, c.Contributes q fact key) ↔
    c.Kept q.dice fact ∧ ∀ level ∈ q.levels, ∃ a, c.RolledTo fact level a := by
  constructor
  · rintro ⟨key, hkept, hkey⟩
    refine ⟨hkept, fun level hlevel => ?_⟩
    obtain ⟨_, -, a, ha, -⟩ := exists_right_of_forall₂ hkey hlevel
    exact ⟨a, ha⟩
  · rintro ⟨hkept, hlevels⟩
    have hname : ∀ level ∈ q.levels, ∃ name, ∃ a, c.RolledTo fact level a
        ∧ canonicalName a.label.uniqueName = name := by
      intro level hlevel
      obtain ⟨a, ha⟩ := hlevels level hlevel
      exact ⟨_, a, ha, rfl⟩
    obtain ⟨key, hkey⟩ := exists_forall₂ hname
    exact ⟨key, hkept, hkey⟩

/-! ### A row for each group -/

variable {result : RowSet} (hrows : List.Forall₂ (fun (group : List String × List Fact) row =>
  c.groupRow q.measures group.1 group.2 = .ok row) (c.groups dice q.levels) result.rows)

section

include hrows

theorem forall₂_groups_rowKey : List.Forall₂ (fun (group : List String × List Fact) row =>
    group ∈ c.groups dice q.levels ∧ rowKey q row = group.1
      ∧ c.groupRow q.measures group.1 group.2 = .ok row) (c.groups dice q.levels) result.rows := by
  refine ((List.forall₂_and_left _ _).2 ⟨fun _ hgroup => hgroup, hrows⟩).imp ?_
  rintro ⟨key, facts⟩ row ⟨hgroup, hrow⟩
  obtain ⟨rfl, hne⟩ := mem_groups.1 hgroup
  obtain ⟨fact, hfact⟩ := List.exists_mem_of_ne_nil _ hne
  exact ⟨hgroup, rowKey_groupRow hrow (length_of_mem_cellFacts hfact), hrow⟩

/-- The keys of the rows are those of the groups. -/
theorem map_rowKey : result.rows.map (rowKey q) = (c.groups dice q.levels).map Prod.fst := by
  rw [← List.forall₂_eq_eq_eq, List.forall₂_map_left_iff, List.forall₂_map_right_iff]
  exact (forall₂_groups_rowKey hrows).flip.imp fun _ _ h => h.2.1

end

variable (hc : c.Built d)

include hc

/-- The key of an observation is the only one to which it contributes. -/
theorem Contributes.key_eq {key' : List String} (h : c.Contributes q fact key)
    (h' : c.Contributes q fact key') : key' = key := by
  have hkey := (groupKey?_eq_some_iff_rolledTo hc).2 h.2
  have hkey' := (groupKey?_eq_some_iff_rolledTo hc).2 h'.2
  exact Option.some.inj (hkey'.symm.trans hkey)

variable (hdice : (q.dice.mapM fun tuple => tuple.mapM c.resolveMember) = .ok dice)

include hdice

/-- **The observations of a key** are those that contribute to it. -/
theorem mem_cellFacts_iff_contributes :
    fact ∈ c.cellFacts dice q.levels key ↔ fact ∈ c.facts ∧ c.Contributes q fact key := by
  rw [mem_cellFacts, isDiced_iff_kept hc hdice, groupKey?_eq_some_iff_rolledTo hc, and_assoc]
  rfl

section

include hrows

theorem exists_row_of_contributes (hfact : fact ∈ c.facts) (hkey : c.Contributes q fact key) :
    ∃ row ∈ result.rows, rowKey q row = key := by
  have hmem := (mem_cellFacts_iff_contributes hc hdice).2 ⟨hfact, hkey⟩
  obtain ⟨row, hrow, -, heq, -⟩ := exists_right_of_forall₂ (forall₂_groups_rowKey hrows)
    (mem_groups.2 ⟨rfl, List.ne_nil_of_mem hmem⟩)
  exact ⟨row, hrow, heq⟩

/-- **An observation contributes to one row.**  Another row with its key would repeat the key. -/
theorem exists_row_once (hfact : fact ∈ c.facts) (hkey : c.Contributes q fact key) :
    ∃ front row back, result.rows = front ++ row :: back ∧ rowKey q row = key
      ∧ ∀ row' ∈ front ++ back, ¬ c.Contributes q fact (rowKey q row') := by
  obtain ⟨row, hmem, heq⟩ := exists_row_of_contributes hrows hc hdice hfact hkey
  obtain ⟨front, back, hsplit⟩ := List.append_of_mem hmem
  refine ⟨front, row, back, hsplit, heq, fun row' hmem' hkey' => ?_⟩
  have hnodup := c.nodup_groups dice q.levels
  rw [← map_rowKey hrows, hsplit, List.map_append, List.map_cons, List.nodup_middle,
    ← List.map_append] at hnodup
  refine (List.nodup_cons.1 hnodup).1 ?_
  rw [heq, ← hkey.key_eq hc hkey']
  exact List.mem_map_of_mem hmem'

/-- **The observations of a row** are those of its group. -/
theorem exists_observations {row : List Term} (hmem : row ∈ result.rows) :
    ∃ (contributes : Fact → Bool) (values : List (Option Float)),
      (∀ fact ∈ c.facts, contributes fact = true ↔ c.Contributes q fact (rowKey q row))
        ∧ c.facts.filter contributes ≠ []
        ∧ List.Forall₂ (fun a x => (MeasureScope.mk q.measures c.measures).value
            (c.facts.filter contributes) a = .ok x) q.measures values
        ∧ row = (rowKey q row).map Term.simple ++ List.zipWith valueTerm q.measures values := by
  obtain ⟨⟨key, facts⟩, -, hgroup, heq, hgrow⟩ :=
    exists_left_of_forall₂ (forall₂_groups_rowKey hrows) hmem
  obtain ⟨rfl, hne⟩ := mem_groups.1 hgroup
  obtain ⟨values, hvalues, hterms⟩ := groupRow_eq_ok.1 hgrow
  have hfilter : c.cellFacts dice q.levels key = c.facts.filter fun fact =>
      c.groupKey? q.levels fact == some key && c.isDiced dice fact := List.filter_filter ..
  rw [heq]
  refine ⟨_, values, fun fact hfact => ?_, hfilter ▸ hne, hfilter ▸ hvalues, hterms⟩
  have hmem : fact ∈ c.cellFacts dice q.levels key ↔ fact ∈ c.facts ∧ c.Contributes q fact key :=
    mem_cellFacts_iff_contributes hc hdice
  rwa [hfilter, List.mem_filter, and_iff_right hfact, and_iff_right hfact] at hmem

/-- **A result partitions the observations** if it has a row for each group. -/
theorem partitioned_of_groups (hcolumns : result.columns = resultColumns q) :
    c.Partitioned q result where
  columns := hcolumns
  keys := by
    have hnodup := c.nodup_groups dice q.levels
    rw [map_rowKey hrows]
    rw [map_fst_groups] at hnodup ⊢
    exact pairwise_keyBefore hnodup
  contributes fact hfact := by
    rw [← exists_contributes_iff]
    constructor
    · rintro ⟨row, -, hkey⟩
      exact ⟨_, hkey⟩
    · rintro ⟨key, hkey⟩
      obtain ⟨row, hmem, heq⟩ := exists_row_of_contributes hrows hc hdice hfact hkey
      exact ⟨row, hmem, heq ▸ hkey⟩
  once _ hfact _ hkey := exists_row_once hrows hc hdice hfact hkey
  rows _ hmem := exists_observations hrows hc hdice hmem

end

omit hdice in
/-- **A plan that is executed** has a result that partitions the observations. -/
theorem Built.partitioned {plan : Plan} (hone : (plan.operators.map Operator.name).Nodup)
    {result : RowSet} (h : c.execute plan = .ok result) :
    ∃ q, plan.Asks q ∧ c.Partitioned q result := by
  obtain ⟨q, hq, hrest⟩ := Outcome.bind_eq_ok.1 h
  obtain ⟨dice, hdice, -⟩ := Outcome.bind_eq_ok.1 hrest
  obtain ⟨hcolumns, hrows⟩ := (execute_eq_ok hq hdice).1 h
  exact ⟨q, Plan.asks_of_ofPlan hone hq, partitioned_of_groups hrows hc hdice hcolumns⟩

end

/-- **The rows of a result partition the observations**, whatever names stand in the cube. -/
theorem execute_partitions (hbuild : d.build = .ok c) {plan : Plan}
    (hone : (plan.operators.map Operator.name).Nodup) {result : RowSet}
    (h : c.execute plan = .ok result) : ∃ q, plan.Asks q ∧ c.Partitioned q result :=
  (CubeDescription.built hbuild).partitioned hone h

/-- The visits of Linz by countries and years. -/
def linzPlan : Plan where
  cube := rowSetOf [visitsCube.cube]
  operators := [
    .rollup (rowSetOf visitsCube.hierarchies)
      (rowSetOf [visitsLevel "Geo" "Country" 0, visitsLevel "Time" "Year" 0]),
    .dice (rowSetOf visitsCube.hierarchies)
      [rowSetOf (visitsCube.members.filter fun m => m.label.name == "Linz")],
    .project (measureRowSet visitsCube.measures)]

set_option maxRecDepth 100000 in
theorem isOk_linzPlan : (visitsCube.execute linzPlan).isOk = true := by decide +kernel

/-- The visits of Linz are in one row, that of their country and year. -/
theorem execute_partitions_linz : ∃ result, visitsCube.execute linzPlan = .ok result
    ∧ (∃ q, linzPlan.Asks q ∧ visitsCube.Partitioned q result)
    ∧ (result.rows.map fun row => (row.take 2).map Term.value) = [["Geo.AT", "Time.2020"]] := by
  have hone : (linzPlan.operators.map Operator.name).Nodup := by decide
  have hexecute := Outcome.eq_ok_get isOk_linzPlan
  refine ⟨_, hexecute, execute_partitions build_visits hone hexecute, ?_⟩
  decide +kernel

end MemoryCube

end Datacube
