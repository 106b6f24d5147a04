import Datacube.Proofs.CellAccess
import Datacube.Proofs.CellLookups
import Datacube.Proofs.Executions
import Datacube.Proofs.MemoryEngines
import Datacube.Proofs.Partitions

/-!
# The header of a result

A plan may have any number of operators of a kind.  The execution goes through its chain from the
outermost operator inwards and lets every projection and every roll-up replace the one before, so
that the innermost ones head the result.  Cell sets ask the plan for its outermost projection.  The
two are the same in a plan with at most one operator of either kind.

## Main definitions

* `Plan.innermostMeasures?`, `Plan.innermostLevels?` — the parameters that head a result.
* `readOr` — what is read of an optional row set.

## Main results

* `PlanParameters.readOr_of_foldlM` — **later operators replace earlier ones.**
* `MemoryEngine.header_of_answer` — **the header of a result, and where a cell set finds its
  measures.**
* `MemoryEngine.not_headed` — a result that is headed by another measure than the plan says.
-/

namespace Datacube

/-! ### The parameters of operators -/

/-- The measures of a projection. -/
def Operator.measures? : Operator → Option RowSet
  | project measures => some measures
  | _ => none

/-- The levels of a roll-up. -/
def Operator.levels? : Operator → Option RowSet
  | rollup _ levels => some levels
  | _ => none

namespace Plan

/-- The measures of the innermost projection. -/
def innermostMeasures? (p : Plan) : Option RowSet :=
  p.operators.reverse.findSome? Operator.measures?

/-- The levels of the innermost roll-up. -/
def innermostLevels? (p : Plan) : Option RowSet := p.operators.reverse.findSome? Operator.levels?

/-- Whether at most one operator of a plan has a parameter. -/
def AtMostOne (part : Operator → Option RowSet) (p : Plan) : Prop :=
  (p.operators.filterMap part).length ≤ 1

instance (part : Operator → Option RowSet) (p : Plan) : Decidable (p.AtMostOne part) :=
  inferInstanceAs (Decidable (_ ≤ 1))

theorem projectedMeasures?_eq (p : Plan) :
    p.projectedMeasures? = p.operators.findSome? Operator.measures? := by
  rw [projectedMeasures?]
  exact congrArg p.operators.findSome? (funext fun op => by cases op <;> rfl)

theorem rollupLevels?_eq (p : Plan) :
    p.rollupLevels? = p.operators.findSome? Operator.levels? := by
  rw [rollupLevels?]
  exact congrArg p.operators.findSome? (funext fun op => by cases op <;> rfl)

/-- The only parameter of a kind is the outermost and the innermost one. -/
theorem AtMostOne.findSome?_reverse {part : Operator → Option RowSet} {p : Plan}
    (h : p.AtMostOne part) :
    p.operators.reverse.findSome? part = p.operators.findSome? part := by
  rw [AtMostOne] at h
  rw [← List.head?_filterMap, ← List.head?_filterMap, List.filterMap_reverse]
  match hparts : p.operators.filterMap part with
  | [] | [_] => rfl
  | _ :: _ :: _ =>
    rw [hparts] at h
    simp at h

end Plan

/-! ### Reading the chain -/

/-- What is read of an optional row set, or else a default. -/
def readOr {α : Type} (read : RowSet → Outcome (List α)) (default : List α) :
    Option RowSet → Outcome (List α)
  | none => .ok default
  | some rows => read rows

namespace PlanParameters

/-- A projection replaces the measures, and no other operator does. -/
theorem measures_of_update {q q' : PlanParameters} {op : Operator} (h : q.update op = .ok q') :
    readOr readMeasures q.measures op.measures? = .ok q'.measures := by
  cases op with
  | project rows =>
    obtain ⟨measures, hmeasures, h⟩ := Outcome.bind_eq_ok.1 h
    cases h
    exact hmeasures
  | dice | slice | rollup =>
    exact congrArg Except.ok (measures_update _ _ _ (by simp [Operator.name]) h).symm

/-- A roll-up replaces the levels, and no other operator does. -/
theorem levels_of_update {q q' : PlanParameters} {op : Operator} (h : q.update op = .ok q') :
    readOr (readAll Level) q.levels op.levels? = .ok q'.levels := by
  cases op with
  | rollup _ rows =>
    obtain ⟨levels, hlevels, h⟩ := Outcome.bind_eq_ok.1 h
    cases h
    exact hlevels
  | project | dice | slice =>
    exact congrArg Except.ok (levels_update _ _ _ (by simp [Operator.name]) h).symm

section

variable {α : Type} {read : RowSet → Outcome (List α)} {field : PlanParameters → List α}
  {part : Operator → Option RowSet}

/-- **Later operators replace earlier ones**: a field that every step reads from the operator, if
it has the parameter, is read from the last operator that has it. -/
theorem readOr_of_foldlM (hstep : ∀ {q op q'}, update q op = .ok q' →
      readOr read (field q) (part op) = .ok (field q')) {operators : List Operator}
    {q q' : PlanParameters} (h : operators.foldlM update q = .ok q') :
    readOr read (field q) (operators.reverse.findSome? part) = .ok (field q') := by
  induction operators generalizing q with
  | nil =>
    cases h
    rfl
  | cons op operators ih =>
    rw [List.foldlM_cons] at h
    obtain ⟨q₁, hop, h⟩ := Outcome.bind_eq_ok.1 h
    have hlater := ih h
    rw [List.reverse_cons, List.findSome?_append]
    cases hfound : operators.reverse.findSome? part with
    | some rows => rwa [hfound] at hlater
    -- the parameter of `op` is the last one
    | none =>
      rw [hfound] at hlater
      rw [Option.none_or, List.findSome?_singleton, ← Except.ok.inj hlater]
      exact hstep hop

/-- All parameters in the chain are read, also those that are replaced. -/
theorem exists_read_of_foldlM (hstep : ∀ {q op q'}, update q op = .ok q' →
      readOr read (field q) (part op) = .ok (field q')) {operators : List Operator}
    {q q' : PlanParameters} (h : operators.foldlM update q = .ok q') :
    ∃ read?, readOr read (field q) (operators.findSome? part) = .ok read? := by
  induction operators generalizing q with
  | nil => exact ⟨_, rfl⟩
  | cons op operators ih =>
    rw [List.foldlM_cons] at h
    obtain ⟨q₁, hop, h⟩ := Outcome.bind_eq_ok.1 h
    have hread := hstep hop
    rw [List.findSome?_cons]
    cases hpart : part op with
    | some rows => exact ⟨_, hpart ▸ hread⟩
    | none =>
      rw [hpart] at hread
      rw [Except.ok.inj hread]
      exact ih h

end

end PlanParameters

/-! ### The header -/

/-- An executed plan has parameters, and the result has their header. -/
theorem MemoryCube.columns_of_execute {c : MemoryCube} {plan : Plan} {result : RowSet}
    (h : c.execute plan = .ok result) :
    ∃ q, PlanParameters.ofPlan plan = .ok q ∧ result.columns = resultColumns q := by
  obtain ⟨q, hq, h'⟩ := Outcome.bind_eq_ok.1 h
  obtain ⟨dice, hdice, -⟩ := Outcome.bind_eq_ok.1 h'
  exact ⟨q, hq, ((execute_eq_ok hq hdice).1 h).1⟩

/-- A cell set of a result that is wide enough reads it with the measures of the outermost
projection. -/
theorem CellSet.exists_ofResult_of_projected {query : Query} {plan : Plan} {result : RowSet}
    {measures : List Member}
    (hmeasures : readOr readMeasures [] plan.projectedMeasures? = .ok measures)
    (hwide : keyWidth query.axes + measures.length ≤ result.columns.length) :
    ∃ s, CellSet.ofResult query plan result = .ok s ∧ s.measures = measures
      ∧ s.cache
        = ⟨result.rows.map (CellCache.entry (keyWidth query.axes) measures.length)⟩ := by
  have hcache : CellCache.ofResult result (keyWidth query.axes) measures.length
      = .ok ⟨result.rows.map (CellCache.entry (keyWidth query.axes) measures.length)⟩ :=
    CellCache.ofResult_eq_ok_iff.2 ⟨.inr hwide, rfl⟩
  rw [CellSet.ofResult]
  cases hrows : plan.projectedMeasures? with
  | none =>
    rw [hrows] at hmeasures
    cases hmeasures
    exact ⟨_, Outcome.bind_eq_ok.2 ⟨[], rfl, Outcome.bind_eq_ok.2 ⟨_, hcache, rfl⟩⟩, rfl, rfl⟩
  | some rows =>
    rw [hrows] at hmeasures
    exact ⟨_, Outcome.bind_eq_ok.2 ⟨measures, hmeasures,
      Outcome.bind_eq_ok.2 ⟨_, hcache, rfl⟩⟩, rfl, rfl⟩

namespace MemoryEngine

open MemoryCube

/-- **The header of a result** has the levels of the innermost roll-up and then the measures of the
innermost projection of the plan.  With at most one operator of a kind these are the levels and the
measures that the plan itself tells.  If the header is what the plan tells, a cell set with as many
key columns as there are levels finds each of its measures in the column that the measure
heads. -/
theorem header_of_answer {e : MemoryEngine} {plan : Plan} {result : RowSet}
    (h : e.answer (.execute plan) = .ok result) :
    ∃ levels measures levels' measures',
      readOr (readAll Level) [] plan.rollupLevels? = .ok levels
      ∧ readOr readMeasures [] plan.projectedMeasures? = .ok measures
      ∧ readOr (readAll Level) [] plan.innermostLevels? = .ok levels'
      ∧ readOr readMeasures [] plan.innermostMeasures? = .ok measures'
      ∧ result.columns = levels'.map (fun level => level.label.uniqueName)
        ++ measures'.map (fun measure => measure.label.uniqueName)
      ∧ (plan.AtMostOne Operator.levels? → levels' = levels)
      ∧ (plan.AtMostOne Operator.measures? → measures' = measures)
      ∧ (result.columns = levels.map (fun level => level.label.uniqueName)
          ++ measures.map (fun measure => measure.label.uniqueName) →
        ∀ query : Query, CellSet.keyWidth query.axes = levels.length → ∃ s,
          CellSet.ofResult query plan result = .ok s ∧ s.measures = measures
          ∧ s.cache = ⟨result.rows.map (CellCache.entry levels.length measures.length)⟩
          ∧ ∀ index a, measures[index]? = some a →
            result.columns[levels.length + index]? = some a.label.uniqueName
            ∧ ∀ row, (CellCache.entry levels.length measures.length row).2[index]?
              = row[levels.length + index]?.map fun t => CellCache.valueOf? t.value) := by
  obtain ⟨c, -, hexecute⟩ := Outcome.bind_eq_ok.1 h
  obtain ⟨q, hq, hcolumns⟩ := columns_of_execute hexecute
  rw [PlanParameters.ofPlan] at hq
  obtain ⟨levels, hlevels⟩ := PlanParameters.exists_read_of_foldlM PlanParameters.levels_of_update hq
  obtain ⟨measures, hmeasures⟩ :=
    PlanParameters.exists_read_of_foldlM PlanParameters.measures_of_update hq
  have hlevels' := PlanParameters.readOr_of_foldlM PlanParameters.levels_of_update hq
  have hmeasures' := PlanParameters.readOr_of_foldlM PlanParameters.measures_of_update hq
  refine ⟨levels, measures, q.levels, q.measures, ?_, ?_, hlevels', hmeasures', hcolumns, ?_, ?_, ?_⟩
  · rwa [Plan.rollupLevels?_eq]
  · rwa [Plan.projectedMeasures?_eq]
  · intro hone
    rw [hone.findSome?_reverse, hlevels] at hlevels'
    exact (Except.ok.inj hlevels').symm
  · intro hone
    rw [hone.findSome?_reverse, hmeasures] at hmeasures'
    exact (Except.ok.inj hmeasures').symm
  · intro hheader query hkeys
    rw [← Plan.projectedMeasures?_eq] at hmeasures
    have hwide : CellSet.keyWidth query.axes + measures.length ≤ result.columns.length := by
      simp [hheader, hkeys]
    obtain ⟨s, hs, hsmeasures, hcache⟩ := CellSet.exists_ofResult_of_projected hmeasures hwide
    rw [hkeys] at hcache
    refine ⟨s, hs, hsmeasures, hcache, fun index a ha => ⟨?_, fun row => ?_⟩⟩
    · rw [hheader, List.getElem?_append_right (by simp)]
      simp [ha]
    · have hlt : index < measures.length := (List.getElem?_eq_some_iff.1 ha).1
      rw [CellCache.snd_entry_getElem?, if_pos hlt]

/-! ### A plan with two projections -/

/-- An amount and its cost in a country. -/
def trade : CubeDescription where
  name := "Sales"
  dimensions := [⟨"Geo", .other, ["Country"]⟩]
  members := [⟨"[Geo].[Country]", "AT", none⟩]
  measures := [.stored "Amount" .sum, .stored "Cost" .sum]
  facts := [⟨["[Geo].[AT]"], [("Amount", 2), ("Cost", 5)]⟩]

set_option maxRecDepth 100000 in
theorem isOk_trade : trade.build.isOk = true := by decide +kernel

/-- The cube of the trade. -/
def tradeCube : MemoryCube := trade.build.get isOk_trade

/-- The measures of the trade at some places. -/
def tradeMeasures (places : List Nat) : List Member :=
  places.filterMap fun place => tradeCube.measures[place]?

/-- The trade by country, with projections around the cube, the innermost one last. -/
def tradePlan (projections : List (List Member)) : Plan where
  cube := rowSetOf [tradeCube.cube]
  operators := .rollup (rowSetOf (tradeCube.hierarchies.take 1)) (rowSetOf (tradeCube.levels.take 1))
    :: projections.map fun measures => .project (measureRowSet measures)

/-- The answer to such a plan. -/
def tradeAnswer (projections : List (List Member)) : Outcome RowSet :=
  (ofCubes "LdCatalog" "LdSchema" [tradeCube]).answer (.execute (tradePlan projections))

set_option maxRecDepth 100000 in
theorem isOk_tradeAnswer : (tradeAnswer [tradeMeasures [1, 0]]).isOk = true := by decide +kernel

/-- Both measures of the trade in a single projection head the result as the plan tells. -/
theorem header_of_answer_trade : ∃ result levels measures,
    tradeAnswer [tradeMeasures [1, 0]] = .ok result
      ∧ readOr (readAll Level) [] (tradePlan [tradeMeasures [1, 0]]).rollupLevels? = .ok levels
      ∧ readOr readMeasures [] (tradePlan [tradeMeasures [1, 0]]).projectedMeasures? = .ok measures
      ∧ result.columns = levels.map (fun level => level.label.uniqueName)
        ++ measures.map (fun measure => measure.label.uniqueName) := by
  have hanswer := Outcome.eq_ok_get isOk_tradeAnswer
  obtain ⟨levels, measures, levels', measures', hlevels, hmeasures, -, -, hcolumns, hone, hone', -⟩ :=
    header_of_answer hanswer
  obtain rfl := hone (Nat.le_refl 1)
  obtain rfl := hone' (Nat.le_refl 1)
  exact ⟨_, levels', measures', hanswer, hlevels, hmeasures, hcolumns⟩

set_option maxRecDepth 100000 in
/-- **A result may be headed by other measures than the plan tells.**  The outer one of two
projections leaves the cost alone, and that is what the plan tells.  The result has the measures of
the inner one, so that the first column after the country holds the amount. -/
theorem not_headed :
    (readOr readMeasures []
        (tradePlan [tradeMeasures [1], tradeMeasures [0, 1]]).projectedMeasures?).map
      (fun measures => measures.map fun measure => measure.label.uniqueName)
        = .ok ["[Measures].[Cost]"]
    ∧ (tradeAnswer [tradeMeasures [1], tradeMeasures [0, 1]]).map
        (fun result => (result.columns, result.rows.map fun row => row.map Term.value))
      = .ok (["[Geo].[Country]", "[Measures].[Amount]", "[Measures].[Cost]"],
        [["Geo.AT", "2", "5"]]) := by
  decide +kernel

end MemoryEngine

end Datacube
