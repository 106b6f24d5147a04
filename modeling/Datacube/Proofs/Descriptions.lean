import Datacube.Memory.Description
import Datacube.Proofs.Assurance
import Datacube.Proofs.Texts
import Mathlib.Data.List.Nodup

/-!
# Cubes that are built from descriptions

A cube that is built from a description has members that belong to its levels, with parents among
its members one level above, and measures that are labelled alike.  If the names in the description
tell its dimensions and levels apart, so do the unique names of the levels.

## Main definitions

* `Level.place` — a level without its cardinality.
* `Member.Placed`, `Member.Declared` — what is known of the members and of the measures of a cube.
* `MemoryCube.Built` — what is known of a cube that is built.
* `CubeDescription.Distinct`, `CubeDescription.Apart` — whether names tell dimensions and levels
  apart, or at least dimensions.

## Main results

* `CubeDescription.built` — **what is known of every cube that is built**.
* `CubeDescription.Distinct.level_eq` — levels of the same unique name are in the same place.
-/

namespace Datacube

/-! ### Levels -/

/-- A level without its cardinality. -/
def Level.place (l : Level) : Level := { l with cardinality := 0 }

theorem map_place_countMember (name : String) (ls : List Level) :
    (countMember name ls).map Level.place = ls.map Level.place := by
  induction ls with
  | nil => rfl
  | cons l ls ih =>
    rw [countMember]
    split
    · rfl
    · rw [List.map_cons, List.map_cons, ih]

/-- Levels that differ in their cardinalities only. -/
private theorem exists_mem_place {ls ls' : List Level}
    (h : ls.map Level.place = ls'.map Level.place) {l : Level} (hl : l ∈ ls) :
    ∃ l' ∈ ls', l'.place = l.place := by
  have hmem : l.place ∈ ls'.map Level.place := h ▸ List.mem_map_of_mem hl
  exact List.mem_map.1 hmem

theorem Level.same_of_place {l l' : Level} (h : l.place = l'.place) :
    l.label = l'.label ∧ l.hierarchy = l'.hierarchy ∧ l.depth = l'.depth :=
  ⟨congrArg (·.label) h, congrArg (·.hierarchy) h, congrArg (·.depth) h⟩

/-! ### Members -/

/-- What is known of a member of a cube with the given levels and members. -/
structure Member.Placed (levels : List Level) (members : List Member) (m : Member) : Prop where
  level : ∃ l ∈ levels, m.level = l.label.uniqueName ∧ m.hierarchy = l.hierarchy ∧ m.depth = l.depth
  uniqueName : m.label.uniqueName ≠ ""
  type : m.type = .regular
  measure : m.measure = none
  parent : ∀ name ∈ m.parent, name.length < m.label.uniqueName.length
    ∧ ∃ p ∈ members, p.label.uniqueName = name ∧ p.depth + 1 = m.depth

theorem Member.Placed.mono {levels : List Level} {members members' : List Member} {m : Member}
    (h : m.Placed levels members) (hmem : ∀ p ∈ members, p ∈ members') :
    m.Placed levels members' := by
  refine ⟨h.level, h.uniqueName, h.type, h.measure, ?_⟩
  intro name hname
  obtain ⟨hlength, p, hp, hparent⟩ := h.parent name hname
  exact ⟨hlength, p, hmem p hp, hparent⟩

namespace Populace

/-- What holds after any number of members have been made. -/
private def Sound (levels : List Level) (q : Populace) : Prop :=
  q.levels.map Level.place = levels.map Level.place ∧ ∀ m ∈ q.newest, m.Placed levels q.newest

private theorem length_nameOf (level : Level) (d : MemberDescription) :
    (d.parent.getD level.dimension).length < (nameOf level d).length := by
  have hdot : String.length "." = 1 := rfl
  simp only [nameOf, String.length_append]
  omega

/-- A member that is made is placed in its level if its parent is a member of the level above. -/
private theorem sound_memberOf {levels : List Level} {q : Populace} {d : MemberDescription}
    {l : Level} (hq : q.Sound levels) (hl : l ∈ q.levels)
    (hparent : ∀ name ∈ d.parent, ∃ p ∈ q.newest, p.label.uniqueName = name
      ∧ p.depth + 1 = l.depth) :
    Sound levels ⟨countMember d.level q.levels, memberOf l d :: q.newest⟩ := by
  obtain ⟨hlevels, hmembers⟩ := hq
  obtain ⟨l', hl', hplace⟩ := exists_mem_place hlevels hl
  obtain ⟨hlabel, hhierarchy, hdepth⟩ := Level.same_of_place hplace
  have hlength := length_nameOf l d
  refine ⟨(map_place_countMember _ _).trans hlevels, List.forall_mem_cons.2 ⟨?_, ?_⟩⟩
  · refine ⟨⟨l', hl', ?_, hhierarchy.symm, hdepth.symm⟩, ?_, rfl, rfl, ?_⟩
    · rw [hlabel]
      rfl
    -- the unique name of a member is longer than that of its parent or of its dimension
    · intro hempty
      rw [show nameOf l d = "" from hempty] at hlength
      exact absurd hlength (Nat.not_lt_zero _)
    · intro name hname
      have hdescribed : d.parent = some name := hname
      obtain ⟨p, hp, hpname, hpdepth⟩ := hparent name hname
      rw [hdescribed] at hlength
      exact ⟨hlength, p, List.mem_cons_of_mem _ hp, hpname, hpdepth⟩
  · intro m hm
    exact (hmembers m hm).mono fun p hp => List.mem_cons_of_mem _ hp

/-- **One more member** is placed in a level, and its parent is a member of the level above. -/
private theorem sound_add {levels : List Level} {q q' : Populace} {d : MemberDescription}
    (hq : q.Sound levels) (h : q.add d = .ok q') : q'.Sound levels := by
  rw [add] at h
  split at h
  · cases h
  · rename_i l hl
    have hlevel := List.mem_of_find?_eq_some hl
    split at h
    · rename_i hnone
      -- a member at the root has no parent
      cases h
      apply sound_memberOf hq hlevel
      rw [hnone]
      intro _ hname
      cases hname
    · rename_i parent hparent
      split at h
      · rename_i hisParent
        -- the parent was found, and it is one level above
        cases h
        apply sound_memberOf hq hlevel
        rw [hparent]
        rintro _ ⟨⟩
        rw [isParent, member?] at hisParent
        split at hisParent
        · rename_i p hp
          obtain ⟨hmem, hname⟩ := mem_of_find?_key hp
          exact ⟨p, hmem, hname, eq_of_beq hisParent⟩
        · cases hisParent
      · cases h

end Populace

/-! ### Measures -/

/-- What is known of a measure of a cube with the given name. -/
structure Member.Declared (cubeName : String) (a : Member) : Prop where
  label : a.label = measureLabel a.label.name
  cubeName : a.cubeName = cubeName
  isMeasure : a.isMeasure = true
  aggregator : ∃ g, a.aggregator? = some g

theorem Member.Declared.uniqueName_ne_empty {cubeName : String} {a : Member}
    (h : a.Declared cubeName) : a.label.uniqueName ≠ "" := by
  rw [h.label]
  exact quoteSegment_dot_ne_empty "Measures" a.label.name

/-- Measures of the same unique name have the same name. -/
theorem Member.Declared.name_eq {cubeName : String} {a b : Member} (ha : a.Declared cubeName)
    (hb : b.Declared cubeName) (h : a.label.uniqueName = b.label.uniqueName) :
    a.label.name = b.label.name := by
  rw [ha.label, hb.label] at h
  have hquote : quoteSegment "Measures" ++ "." ++ quoteSegment a.label.name
      = quoteSegment "Measures" ++ "." ++ quoteSegment b.label.name := h
  exact (quoteSegment_dot_inj hquote).2

private theorem declared_addMeasure {level : Level} {measures result : List Member}
    {d : MeasureDescription} (hmeasures : ∀ a ∈ measures, a.Declared level.cubeName)
    (h : addMeasure level measures d = .ok result) : ∀ a ∈ result, a.Declared level.cubeName := by
  cases d with
  | stored name aggregator =>
    cases h
    exact List.forall_mem_append.2
      ⟨hmeasures, List.forall_mem_singleton.2 ⟨rfl, rfl, rfl, aggregator, rfl⟩⟩
  | calculated name formula =>
    rw [addMeasure] at h
    split at h
    · rename_i sibling hsibling
      cases h
      have hcube := (hmeasures sibling (List.mem_of_find?_eq_some hsibling)).cubeName
      exact List.forall_mem_append.2
        ⟨hmeasures, List.forall_mem_singleton.2 ⟨rfl, hcube, rfl, .calculated, rfl⟩⟩
    · cases h

/-! ### Cubes -/

/-- What is known of a cube that is built from a description. -/
structure MemoryCube.Built (d : CubeDescription) (c : MemoryCube) : Prop where
  cube : c.cube = d.toCube
  levels : ∀ l ∈ c.levels, (∃ l' ∈ d.toLevels, l'.place = l.place)
    ∨ l = measuresLevelOf d.name d.measures.length
  members : ∀ m ∈ c.members, m.Placed d.toLevels c.members
  measures : ∀ a ∈ c.measures, a.Declared d.name

/-- What a cube is built of: members in levels, then measures, then observations of these. -/
theorem CubeDescription.exists_of_build {d : CubeDescription} {c : MemoryCube}
    (h : d.build = .ok c) : ∃ q measures facts, d.populace = .ok q ∧ d.toMeasures = .ok measures
      ∧ (d.facts.mapM fun fact => fact.toFact q.newest.reverse measures) = .ok facts
      ∧ c = {
        cube := d.toCube
        dimensions := d.toDimensions
          ++ if !d.measures.isEmpty then [measuresDimensionOf d.name d.dimensions.length] else []
        hierarchies := d.dimensions.map (·.toHierarchy d.name)
          ++ if !d.measures.isEmpty then [measuresHierarchyOf d.name] else []
        levels := q.levels
          ++ if !d.measures.isEmpty then [measuresLevelOf d.name d.measures.length] else []
        members := q.newest.reverse
        measures
        facts } := by
  obtain ⟨q, hq, h⟩ := Outcome.bind_eq_ok.1 h
  obtain ⟨measures, hmeasures, h⟩ := Outcome.bind_eq_ok.1 h
  obtain ⟨facts, hfacts, h⟩ := Outcome.bind_eq_ok.1 h
  cases h
  exact ⟨q, measures, facts, hq, hmeasures, hfacts, rfl⟩

/-- **What is known of every cube that is built** from a description. -/
theorem CubeDescription.built {d : CubeDescription} {c : MemoryCube} (h : d.build = .ok c) :
    c.Built d := by
  obtain ⟨q, measures, facts, hq, hmeasures, -, rfl⟩ := exists_of_build h
  -- along the described members and then along the described measures
  obtain ⟨hlevels, hmembers⟩ : q.Sound d.toLevels :=
    Outcome.assurance.foldlM (fun _ q => Populace.Sound d.toLevels q)
      (fun _ _ _ _ hq _ h => Populace.sound_add hq h)
      ⟨rfl, fun _ h => absurd h List.not_mem_nil⟩ q hq
  have hdeclared : ∀ a ∈ measures, a.Declared d.name :=
    Outcome.assurance.foldlM (fun _ ms => ∀ a ∈ ms, Member.Declared d.name a)
      (fun _ _ _ _ hms _ h => declared_addMeasure hms h) (fun _ h => absurd h List.not_mem_nil)
      measures hmeasures
  refine ⟨rfl, ?_, ?_, hdeclared⟩
  · intro l hl
    rcases List.mem_append.1 hl with hl | hl
    · exact .inl (exists_mem_place hlevels hl)
    · refine .inr ?_
      split at hl
      · exact List.mem_singleton.1 hl
      · cases hl
  · intro m hm
    exact (hmembers m (List.mem_reverse.1 hm)).mono fun p hp => List.mem_reverse.2 hp

/-! ### Distinct names -/

/-- Whether the names in a description tell its dimensions, and the levels of a dimension, apart.
The measures have a dimension of their own. -/
structure CubeDescription.Distinct (d : CubeDescription) : Prop where
  dimensions : (d.dimensions.map DimensionDescription.name).Nodup
  measures : "Measures" ∉ d.dimensions.map DimensionDescription.name
  levels : ∀ dimension ∈ d.dimensions, dimension.levels.Nodup

/-- Whether the names in a description tell its dimensions apart.  The measures, if there are any,
have a dimension of their own. -/
structure CubeDescription.Apart (d : CubeDescription) : Prop where
  dimensions : (d.dimensions.map DimensionDescription.name).Nodup
  measures : d.measures.isEmpty = false → "Measures" ∉ d.dimensions.map DimensionDescription.name

namespace CubeDescription

variable {d : CubeDescription}

theorem Distinct.apart (hd : d.Distinct) : d.Apart := ⟨hd.dimensions, fun _ => hd.measures⟩

theorem mem_toLevels {l : Level} : l ∈ d.toLevels ↔ ∃ dimension ∈ d.dimensions, ∃ name depth,
    dimension.levels[depth]? = some name ∧ l = dimension.toLevel d.name name depth := by
  simp only [toLevels, DimensionDescription.toLevels, List.mem_flatMap, List.mem_map, Prod.exists,
    List.mem_zipIdx_iff_getElem?]
  constructor
  · rintro ⟨dimension, hdimension, name, depth, hname, rfl⟩
    exact ⟨dimension, hdimension, name, depth, hname, rfl⟩
  · rintro ⟨dimension, hdimension, name, depth, hname, rfl⟩
    exact ⟨dimension, hdimension, name, depth, hname, rfl⟩

/-- **Levels of the same unique name are the same level** of a description with distinct names. -/
theorem Distinct.level_eq (hd : d.Distinct) {l l' : Level} (hl : l ∈ d.toLevels)
    (hl' : l' ∈ d.toLevels) (h : l.label.uniqueName = l'.label.uniqueName) : l = l' := by
  obtain ⟨dimension, hdimension, name, depth, hname, rfl⟩ := mem_toLevels.1 hl
  obtain ⟨dimension', hdimension', name', depth', hname', rfl⟩ := mem_toLevels.1 hl'
  -- the unique name of a level has two segments: its dimension and its own name
  obtain ⟨hdim, rfl⟩ := quoteSegment_dot_inj h
  obtain rfl := List.inj_on_of_nodup_map hd.dimensions hdimension hdimension' hdim
  obtain ⟨hlt, hget⟩ := List.getElem?_eq_some_iff.1 hname
  obtain ⟨hlt', hget'⟩ := List.getElem?_eq_some_iff.1 hname'
  obtain rfl := (hd.levels dimension hdimension).getElem_inj_iff.1 (hget.trans hget'.symm)
  rfl

/-- The level of the measures is no level of a dimension. -/
theorem Distinct.ne_measuresLevel (hd : d.Distinct) {l : Level} (hl : l ∈ d.toLevels) :
    l.label.uniqueName ≠ measuresLevel := by
  obtain ⟨dimension, hdimension, name, depth, -, rfl⟩ := mem_toLevels.1 hl
  intro h
  have hquote : quoteSegment dimension.name ++ "." ++ quoteSegment name
      = quoteSegment "Measures" ++ "." ++ quoteSegment "MeasuresLevel" := h
  refine hd.measures (List.mem_map.2 ⟨dimension, hdimension, ?_⟩)
  exact (quoteSegment_dot_inj hquote).1

end CubeDescription

end Datacube
