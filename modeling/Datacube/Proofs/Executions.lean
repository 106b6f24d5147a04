import Datacube.Cells.CellSet
import Datacube.Memory.Execution
import Datacube.Proofs.Plans
import Datacube.Proofs.Rows

/-!
# What executions show in cells

The execution of a plan in memory has a row for every group of observations, and the cell set looks
rows up by their keys.  A cell shows the value of a measure over the observations that are kept by
the dice and have the key of the cell, or nothing if there are none.

## Main definitions

* `MemoryCube.cellFacts` — the observations of a key.

## Main results

* `PlanParts.ofPlan_eq_ok` — what a plan asks for is what is read back of its parts.
* `MemoryCube.mem_groups` — the groups are the observations of the keys.
* `MemoryCube.exists_execute` — **when an execution succeeds**.
* `MemoryCube.text_get?` — **the value of a cell** over the observations of its key.
-/

namespace Datacube

/-! ### Texts of numbers -/

private theorem placePoint_ne_nil (places : Nat) (digits : List Char) :
    placePoint places digits ≠ [] := by
  intro h
  -- the part in front of the point has at least one digit
  have hwhole : ((List.replicate (places + 1 - digits.length) '0' ++ digits).take
      ((List.replicate (places + 1 - digits.length) '0' ++ digits).length - places)).length
        ≠ 0 := by
    rw [List.length_take, List.length_append, List.length_replicate]
    omega
  unfold placePoint at h
  dsimp only at h
  split at h
  · exact hwhole (by rw [h]; rfl)
  · exact absurd h (List.append_ne_nil_of_right_ne_nil _ (List.cons_ne_nil _ _))

private theorem Decimal.text_ne_nil (d : Decimal) : d.text ≠ [] := by
  rw [Decimal.text]
  split
  · exact Nat.toDigits_ne_nil
  · exact placePoint_ne_nil _ _

/-- The text of a number is not empty, so a value is never taken for an absent one. -/
theorem numberText_ne_empty (x : Float) : numberText x ≠ "" := by
  have hmagnitude : (if x.isInf then ['i', 'n', 'f'] else (Magnitude.ofFloat x).text) ≠ [] := by
    split
    · exact List.cons_ne_nil _ _
    · rw [Magnitude.text]
      split
      · exact List.cons_ne_nil _ _
      · exact Decimal.text_ne_nil _
  rw [numberText]
  split
  · decide
  · intro h
    have hnil := String.ofList_eq_empty_iff.1 h
    split at hnil
    · cases hnil
    · exact hmagnitude hnil

/-- The text of a cell whose value was reported by a term. -/
theorem value_valueOf?_valueTerm (a : Member) (x : Option Float) :
    (CellCache.valueOf? (valueTerm a x).value).map CellValue.value = x.map numberText := by
  cases x with
  | none => rfl
  | some x =>
    rw [CellCache.valueOf?, valueTerm, Term.value_typed, if_neg (numberText_ne_empty x)]
    rfl

/-! ### Keys -/

/-- An optional value for each element of a list. -/
theorem Option.mapM_eq_some {α β : Type} {f : α → Option β} {as : List α} {bs : List β} :
    as.mapM f = some bs ↔ List.Forall₂ (fun a b => f a = some b) as bs := by
  induction as generalizing bs with
  | nil => exact ⟨fun h => by cases h; exact .nil, fun h => by cases h; rfl⟩
  | cons a as ih =>
    rw [List.mapM_cons, Option.bind_eq_bind, Option.bind_eq_some_iff]
    constructor
    · rintro ⟨b, hb, h⟩
      obtain ⟨bs', hbs', h'⟩ := Option.bind_eq_some_iff.1 h
      cases h'
      exact .cons hb (ih.1 hbs')
    · rintro (_ | ⟨hb, hbs⟩)
      exact ⟨_, hb, Option.bind_eq_some_iff.2 ⟨_, ih.2 hbs, rfl⟩⟩

namespace MemoryCube

variable (c : MemoryCube)

/-- The key of an observation has the canonical names of its ancestors at the levels. -/
theorem groupKey?_eq_some {levels : List Level} {fact : Fact} {key : List String} :
    c.groupKey? levels fact = some key ↔ List.Forall₂ (fun level name =>
      ∃ a, c.factAncestor? fact level = some a ∧ canonicalName a.label.uniqueName = name)
        levels key := by
  simp only [groupKey?, Option.mapM_eq_some, Option.map_eq_some_iff]

/-- The observations that are kept by a dice and have a key. -/
def cellFacts (dice : List (List Member)) (levels : List Level) (key : List String) : List Fact :=
  (c.facts.filter (c.isDiced dice)).filter fun fact => c.groupKey? levels fact == some key

variable {c} {dice : List (List Member)} {levels : List Level} {key : List String}

theorem length_of_mem_cellFacts {fact : Fact} (h : fact ∈ c.cellFacts dice levels key) :
    key.length = levels.length :=
  ((c.groupKey?_eq_some).1 (eq_of_beq (List.mem_filter.1 h).2)).length_eq.symm

/-- The observations with a key among those that are labelled with their keys. -/
private theorem map_filter_filterMap (f : Fact → Option (List String)) (facts : List Fact) :
    ((facts.filterMap fun fact => (f fact).map fun key => (key, fact)).filter
      fun (k, _) => k == key).map Prod.snd = facts.filter fun fact => f fact == some key := by
  induction facts with
  | nil => rfl
  | cons fact facts ih =>
    rw [List.filterMap_cons, List.filter_cons]
    cases h : f fact with
    | none => simpa using ih
    | some k =>
      rw [Option.map_some, Option.some_beq_some]
      dsimp only
      rw [List.filter_cons]
      split
      · rw [List.map_cons, ih]
      · exact ih

/-- **The groups are the observations of the keys**, as far as there are any. -/
theorem mem_groups {facts : List Fact} : (key, facts) ∈ c.groups dice levels ↔
    facts = c.cellFacts dice levels key ∧ facts ≠ [] := by
  have hfacts : ∀ k, ((c.keyedFacts dice levels).filter fun (k', _) => k' == k).map Prod.snd
      = c.cellFacts dice levels k := fun k => map_filter_filterMap _ _
  -- the keys that occur are those of some observation
  have hkeys : ∀ k, k ∈ groupKeys (c.keyedFacts dice levels) ↔ c.cellFacts dice levels k ≠ [] := by
    intro k
    rw [groupKeys, mem_sortBy, List.mem_eraseDups, ← hfacts, ne_eq, List.map_eq_nil_iff,
      List.filter_eq_nil_iff]
    simp [List.mem_map]
  rw [groups, List.mem_map]
  simp only [hfacts, Prod.mk.injEq]
  constructor
  · rintro ⟨k, hk, rfl, rfl⟩
    exact ⟨rfl, (hkeys k).1 hk⟩
  · rintro ⟨rfl, hne⟩
    exact ⟨key, (hkeys key).2 hne, rfl, rfl⟩

end MemoryCube

/-! ### Parameters -/

/-- **What the plan with given parts asks for** is what is read back of its parts. -/
theorem PlanParts.ofPlan_eq_ok {parts : PlanParts} {cube : Cube} {slicer : Option Axis}
    {q : PlanParameters} : PlanParameters.ofPlan (parts.plan cube slicer) = .ok q ↔
      List.Forall₂ (fun l l' => Record.read (rowOf l) = .ok l') parts.levels q.levels
        ∧ List.Forall₂ (fun position tuple =>
          List.Forall₂ (fun a b => Record.read (rowOf a) = .ok b) position.dimensionMembers tuple)
            (dicePositions slicer) q.dice
        ∧ readMeasures (measureRowSet parts.measures) = .ok q.measures := by
  have htuples : ∀ tuples, ((dicePositions slicer).map fun position =>
      rowSetOf position.dimensionMembers).mapM (readAll Member) = .ok tuples ↔
        List.Forall₂ (fun position tuple => List.Forall₂ (fun a b => Record.read (rowOf a) = .ok b)
          position.dimensionMembers tuple) (dicePositions slicer) tuples := by
    intro tuples
    rw [Outcome.mapM_eq_ok, List.forall₂_map_left_iff]
    simp only [readAll_rowSetOf]
  rw [← htuples, ← readAll_rowSetOf]
  constructor
  · intro h
    -- the operators from the outermost inwards: roll-up, slice, dice and projection
    obtain ⟨_, h₁, h⟩ := Outcome.bind_eq_ok.1 h
    obtain ⟨levels, hlevels, h₁⟩ := Outcome.bind_eq_ok.1 h₁
    cases h₁
    obtain ⟨_, h₂, h⟩ := Outcome.bind_eq_ok.1 h
    cases h₂
    obtain ⟨_, h₃, h⟩ := Outcome.bind_eq_ok.1 h
    obtain ⟨tuples, hdice, h₃⟩ := Outcome.bind_eq_ok.1 h₃
    cases h₃
    obtain ⟨_, h₄, h⟩ := Outcome.bind_eq_ok.1 h
    obtain ⟨measures, hmeasures, h₄⟩ := Outcome.bind_eq_ok.1 h₄
    cases h₄
    cases h
    exact ⟨hlevels, hdice, hmeasures⟩
  · rintro ⟨hlevels, hdice, hmeasures⟩
    refine Outcome.bind_eq_ok.2 ⟨_, Outcome.bind_eq_ok.2 ⟨_, hlevels, rfl⟩, ?_⟩
    refine Outcome.bind_eq_ok.2 ⟨_, rfl, ?_⟩
    refine Outcome.bind_eq_ok.2 ⟨_, Outcome.bind_eq_ok.2 ⟨_, hdice, rfl⟩, ?_⟩
    exact Outcome.bind_eq_ok.2 ⟨_, Outcome.bind_eq_ok.2 ⟨_, hmeasures, rfl⟩, rfl⟩

namespace MemoryCube

/-! ### Results -/

/-- What is made of related elements. -/
private theorem forall₂_exists_iff {α β γ : Type} {R : α → β → Prop} {g : α → β → γ} {as : List α}
    {ts : List γ} : List.Forall₂ (fun a t => ∃ x, R a x ∧ g a x = t) as ts ↔
      ∃ xs, List.Forall₂ R as xs ∧ ts = List.zipWith g as xs := by
  induction as generalizing ts with
  | nil =>
    constructor
    · rintro ⟨⟩
      exact ⟨[], .nil, rfl⟩
    · rintro ⟨_, ⟨⟩, rfl⟩
      exact .nil
  | cons a as ih =>
    constructor
    · rintro (_ | ⟨⟨x, hx, rfl⟩, h⟩)
      obtain ⟨xs, hxs, rfl⟩ := ih.1 h
      exact ⟨x :: xs, .cons hx hxs, rfl⟩
    · rintro ⟨_, _ | ⟨hx, hxs⟩, rfl⟩
      exact .cons ⟨_, hx, rfl⟩ (ih.2 ⟨_, hxs, rfl⟩)

variable {c : MemoryCube} {measures : List Member}

/-- The row of a group has its key and the values of the measures. -/
theorem groupRow_eq_ok {key : List String} {facts : List Fact} {row : List Term} :
    c.groupRow measures key facts = .ok row ↔ ∃ values,
      List.Forall₂ (fun a x => (MeasureScope.mk measures c.measures).value facts a = .ok x)
          measures values
        ∧ row = key.map Term.simple ++ List.zipWith valueTerm measures values := by
  have hterms : ∀ terms, (measures.mapM fun a => do
      return valueTerm a (← (MeasureScope.mk measures c.measures).value facts a)) = .ok terms ↔
        ∃ values, List.Forall₂ (fun a x =>
            (MeasureScope.mk measures c.measures).value facts a = .ok x) measures values
          ∧ terms = List.zipWith valueTerm measures values := by
    intro terms
    rw [Outcome.mapM_eq_ok, ← forall₂_exists_iff]
    simp only [Outcome.bind_eq_ok, Outcome.pure_eq_ok]
  rw [groupRow, Outcome.bind_eq_ok]
  simp only [hterms]
  constructor
  · rintro ⟨_, ⟨values, hvalues, rfl⟩, h⟩
    cases h
    exact ⟨values, hvalues, rfl⟩
  · rintro ⟨values, hvalues, rfl⟩
    exact ⟨_, ⟨values, hvalues, rfl⟩, rfl⟩

theorem length_groupRow {key : List String} {facts : List Fact} {row : List Term}
    (h : c.groupRow measures key facts = .ok row) : row.length = key.length + measures.length := by
  obtain ⟨values, hvalues, rfl⟩ := groupRow_eq_ok.1 h
  rw [List.length_append, List.length_map, List.length_zipWith, ← hvalues.length_eq, Nat.min_self]

/-- What the cache keeps of the row of a group. -/
theorem entry_groupRow {key : List String} {facts : List Fact} {row : List Term}
    (h : c.groupRow measures key facts = .ok row) : ∃ values,
      List.Forall₂ (fun a x => (MeasureScope.mk measures c.measures).value facts a = .ok x)
          measures values
        ∧ CellCache.entry key.length measures.length row
          = (key, (List.zipWith valueTerm measures values).map
            fun t => CellCache.valueOf? t.value) := by
  obtain ⟨values, hvalues, rfl⟩ := groupRow_eq_ok.1 h
  refine ⟨values, hvalues, ?_⟩
  have hkey : (key.map Term.simple).map Term.value = key := by
    rw [List.map_map]
    exact List.map_id _
  have hlength : ((List.zipWith valueTerm measures values).map Term.value).length
      = measures.length := by
    rw [List.length_map, List.length_zipWith, ← hvalues.length_eq, Nat.min_self]
  rw [CellCache.entry, List.map_append, hkey]
  rw [List.take_left, List.drop_left, ← hlength, List.take_length, List.map_map]
  rfl

/-- What the cache keeps of the row of a group of a plan. -/
private theorem entry_of_mem_groups {dice : List (List Member)} {levels : List Level}
    {group : List String × List Fact} {row : List Term} (hgroup : group ∈ c.groups dice levels)
    (hrow : c.groupRow measures group.1 group.2 = .ok row) :
    ∃ values, List.Forall₂ (fun a x => (MeasureScope.mk measures c.measures).value
        (c.cellFacts dice levels group.1) a = .ok x) measures values
      ∧ CellCache.entry levels.length measures.length row = (group.1,
        (List.zipWith valueTerm measures values).map fun t => CellCache.valueOf? t.value) := by
  obtain ⟨key, facts⟩ := group
  obtain ⟨rfl, hne⟩ := mem_groups.1 hgroup
  obtain ⟨fact, hfact⟩ := List.exists_mem_of_ne_nil _ hne
  rw [← length_of_mem_cellFacts hfact]
  exact entry_groupRow hrow

/-- What the cache keeps for the measure of an index. -/
private theorem bind_getElem?_zipWith {values : List (Option Float)} {index : Nat}
    (hlt : index < measures.length) (hlt' : index < values.length) :
    ((((List.zipWith valueTerm measures values).map fun t =>
      CellCache.valueOf? t.value)[index]?).bind id).map CellValue.value
        = values[index].map numberText := by
  rw [List.getElem?_map, List.getElem?_zipWith, List.getElem?_eq_getElem hlt,
    List.getElem?_eq_getElem hlt']
  exact value_valueOf?_valueTerm measures[index] values[index]

variable {plan : Plan} {q : PlanParameters} {dice : List (List Member)} {result : RowSet}
  (hq : PlanParameters.ofPlan plan = .ok q)
  (hdice : (q.dice.mapM fun tuple => tuple.mapM c.resolveMember) = .ok dice)

include hq hdice

/-- The result of a plan has a row for each group. -/
theorem execute_eq_ok : c.execute plan = .ok result ↔ result.columns = resultColumns q
    ∧ List.Forall₂ (fun (group : List String × List Fact) row =>
      c.groupRow q.measures group.1 group.2 = .ok row) (c.groups dice q.levels) result.rows := by
  rw [execute, Outcome.bind_eq_ok]
  constructor
  · rintro ⟨q', hq', h⟩
    obtain rfl := Except.ok.inj (hq.symm.trans hq')
    obtain ⟨dice', hdice', h⟩ := Outcome.bind_eq_ok.1 h
    obtain rfl := Except.ok.inj (hdice.symm.trans hdice')
    obtain ⟨rows, hrows, h⟩ := Outcome.bind_eq_ok.1 h
    obtain ⟨hcolumns, rfl⟩ := RowSet.ofRows?_eq_ok_iff.1 h
    exact ⟨hcolumns, Outcome.mapM_eq_ok.1 hrows⟩
  · rintro ⟨hcolumns, hrows⟩
    refine ⟨q, hq, Outcome.bind_eq_ok.2 ⟨dice, hdice, ?_⟩⟩
    refine Outcome.bind_eq_ok.2 ⟨result.rows, ?_, ?_⟩
    · exact Outcome.mapM_eq_ok.2 hrows
    · exact RowSet.ofRows?_eq_ok_iff.2 ⟨hcolumns, rfl⟩

/-- **An execution succeeds** if and only if the measures have values over the observations of
every key. -/
theorem exists_execute : (∃ result, c.execute plan = .ok result) ↔
    ∀ key, c.cellFacts dice q.levels key ≠ [] → ∀ a ∈ q.measures, ∃ x,
      (MeasureScope.mk q.measures c.measures).value (c.cellFacts dice q.levels key) a = .ok x := by
  simp only [execute_eq_ok hq hdice]
  constructor
  · rintro ⟨result, -, hrows⟩ key hne a ha
    obtain ⟨row, -, hrow⟩ := exists_right_of_forall₂ hrows (mem_groups.2 ⟨rfl, hne⟩)
    obtain ⟨values, hvalues, -⟩ := groupRow_eq_ok.1 hrow
    obtain ⟨x, -, hx⟩ := exists_right_of_forall₂ hvalues ha
    exact ⟨x, hx⟩
  · intro h
    have hrow : ∀ group ∈ c.groups dice q.levels, ∃ row,
        c.groupRow q.measures group.1 group.2 = .ok row := by
      rintro ⟨key, facts⟩ hgroup
      obtain ⟨rfl, hne⟩ := mem_groups.1 hgroup
      obtain ⟨values, hvalues⟩ := exists_forall₂ (h key hne)
      exact ⟨_, groupRow_eq_ok.2 ⟨values, hvalues, rfl⟩⟩
    obtain ⟨rows, hrows⟩ := exists_forall₂ hrow
    refine ⟨⟨resultColumns q, rows, fun row hmem => ?_⟩, rfl, hrows⟩
    obtain ⟨⟨key, facts⟩, hgroup, hrow⟩ := exists_left_of_forall₂ hrows hmem
    obtain ⟨rfl, hne⟩ := mem_groups.1 hgroup
    obtain ⟨fact, hfact⟩ := List.exists_mem_of_ne_nil _ hne
    rw [length_groupRow hrow, length_of_mem_cellFacts hfact, resultColumns, List.length_append,
      List.length_map, List.length_map]

/-- The rows of a result have the width that the cell set expects. -/
theorem ofResult_execute (h : c.execute plan = .ok result) :
    CellCache.ofResult result q.levels.length q.measures.length
      = .ok ⟨result.rows.map (CellCache.entry q.levels.length q.measures.length)⟩ := by
  obtain ⟨hcolumns, -⟩ := (execute_eq_ok hq hdice).1 h
  rw [CellCache.ofResult]
  split
  · rename_i row index hshort
    have hmem := List.fst_mem_of_mem_zipIdx (List.mem_of_find?_eq_some hshort)
    have hlt := List.find?_some (p := fun row : List Term × Nat =>
      decide (row.1.length < q.levels.length + q.measures.length)) hshort
    have hwidth := result.width_eq row hmem
    rw [hcolumns, resultColumns, List.length_append, List.length_map, List.length_map] at hwidth
    exact absurd (of_decide_eq_true hlt) (by dsimp only; omega)
  · rfl

/-- **The text of a cell** is that of the value of the measure over the observations of the key,
and there is none without observations. -/
theorem text_get? (h : c.execute plan = .ok result) {cache : CellCache}
    (hcache : CellCache.ofResult result q.levels.length q.measures.length = .ok cache)
    {key : CellKey} {index : Nat} {a : Member} (ha : q.measures[index]? = some a) :
    (c.cellFacts dice q.levels key = [] ∧ cache.get? key index = none)
      ∨ c.cellFacts dice q.levels key ≠ [] ∧ ∃ x,
        (MeasureScope.mk q.measures c.measures).value (c.cellFacts dice q.levels key) a = .ok x
          ∧ (cache.get? key index).map CellValue.value = x.map numberText := by
  obtain ⟨-, hrows⟩ := (execute_eq_ok hq hdice).1 h
  rw [ofResult_execute hq hdice h] at hcache
  cases hcache
  rw [CellCache.get?]
  cases hfind : (result.rows.map (CellCache.entry q.levels.length q.measures.length)).reverse.find?
    fun entry : CellKey × List (Option CellValue) => entry.1 == key with
  | none =>
    -- if there were observations with the key, their group would have a row
    refine .inl ⟨?_, rfl⟩
    by_contra hne
    obtain ⟨row, hmem, hrow⟩ := exists_right_of_forall₂ hrows (mem_groups.2 ⟨rfl, hne⟩)
    obtain ⟨values, -, heq⟩ := entry_of_mem_groups (mem_groups.2 ⟨rfl, hne⟩) hrow
    have hnot := List.find?_eq_none.1 hfind _ (List.mem_reverse.2 (List.mem_map_of_mem hmem))
    rw [heq] at hnot
    exact hnot BEq.rfl
  | some found =>
    refine .inr ?_
    obtain ⟨k, cells⟩ := found
    -- the row that is found last is that of the group of the key
    obtain ⟨hmem, hkey⟩ : (k, cells) ∈ (result.rows.map (CellCache.entry q.levels.length
        q.measures.length)).reverse ∧ k = key := mem_of_find?_key hfind
    obtain ⟨row, hrowmem, heq⟩ := List.mem_map.1 (List.mem_reverse.1 hmem)
    obtain ⟨group, hgroup, hrow⟩ := exists_left_of_forall₂ hrows hrowmem
    obtain ⟨values, hvalues, hcells⟩ := entry_of_mem_groups hgroup hrow
    rw [heq] at hcells
    obtain ⟨hgroupkey, rfl⟩ := Prod.mk.inj hcells
    obtain ⟨hfacts, hne⟩ := mem_groups.1 hgroup
    rw [hfacts, ← hgroupkey, hkey] at hne
    rw [← hgroupkey, hkey] at hvalues
    obtain ⟨hlt, rfl⟩ := List.getElem?_eq_some_iff.1 ha
    have hlt' : index < values.length := hvalues.length_eq ▸ hlt
    refine ⟨hne, values[index], hvalues.get hlt hlt', ?_⟩
    exact bind_getElem?_zipWith hlt hlt'

end MemoryCube

end Datacube
