import Datacube.Proofs.Descriptions

/-!
# What a description declares

The levels and members of a cube that is built from a description can be told from the description
alone.  A level has as many members as are described for it, and its members are numbered in the
order in which they are described.  Of several levels with one name, the first one has the members
of all of them.

## Main definitions

* `Level.described` — the descriptions of the members of a level.
* `Level.counted` — a level with the number of its members; `Level.membersOf` — its members.
* `levelNamed?` — the level of a unique name, the first one.
* `CubeDescription.membersIn` — the members of a dimension.
* `MemoryCube.Filled`, `MemoryCube.Declared` — whether a cube has what a description declares,
  whatever its names are, or if they tell dimensions and levels apart.

## Main results

* `Populace.makes_add` — **one more member** is the last one of its level.
* `CubeDescription.filled`, `CubeDescription.declared` — **a cube that is built has what is
  declared**.
* `MemoryCube.Declared.mem_membersIn` — the members of a dimension are all that are declared for it.
-/

namespace Datacube

/-! ### Levels with their members -/

namespace Level

variable (l : Level) (ms : List MemberDescription)

/-- The descriptions of the members of a level, in order. -/
def described : List MemberDescription := ms.filter (·.level == l.label.uniqueName)

/-- The level with the number of its members. -/
def counted : Level := { l with cardinality := (l.described ms).length }

@[simp] theorem uniqueName_counted : (l.counted ms).label.uniqueName = l.label.uniqueName := rfl

/-- The member of a level that a description gives, in the given place. -/
def toMember (m : MemberDescription) (ordinal : Nat) : Member :=
  { Member.regular (.ofName (Populace.nameOf l m) m.name) l ordinal with parent := m.parent }

/-- The members of a level. -/
def membersOf : List Member :=
  (l.described ms).zipIdx.map fun (m, ordinal) => l.toMember m ordinal

variable {l ms} {m : MemberDescription}

theorem described_append_of_eq (h : m.level = l.label.uniqueName) :
    l.described (ms ++ [m]) = l.described ms ++ [m] := by
  rw [described, List.filter_append]
  exact congrArg _ (List.filter_cons_of_pos (beq_iff_eq.2 h))

theorem described_append_of_ne (h : m.level ≠ l.label.uniqueName) :
    l.described (ms ++ [m]) = l.described ms := by
  have hnone : [m].filter (·.level == l.label.uniqueName) = [] :=
    List.filter_cons_of_neg (by simpa using h)
  rw [described, List.filter_append, hnone]
  exact List.append_nil _

theorem membersOf_append_of_eq (h : m.level = l.label.uniqueName) :
    l.membersOf (ms ++ [m]) = l.membersOf ms ++ [l.toMember m (l.described ms).length] := by
  rw [membersOf, described_append_of_eq h, List.zipIdx_append, List.map_append, Nat.zero_add]
  rfl

theorem membersOf_append_of_ne (h : m.level ≠ l.label.uniqueName) :
    l.membersOf (ms ++ [m]) = l.membersOf ms := by
  rw [membersOf, described_append_of_ne h]
  rfl

theorem mem_membersOf {a : Member} : a ∈ l.membersOf ms ↔
    ∃ m ordinal, (l.described ms)[ordinal]? = some m ∧ a = l.toMember m ordinal := by
  simp only [membersOf, List.mem_map, Prod.exists, List.mem_zipIdx_iff_getElem?]
  constructor
  · rintro ⟨m, ordinal, hm, rfl⟩
    exact ⟨m, ordinal, hm, rfl⟩
  · rintro ⟨m, ordinal, hm, rfl⟩
    exact ⟨m, ordinal, hm, rfl⟩

/-- **The ordinals of the members of a level** are their places. -/
theorem map_ordinal_membersOf :
    (l.membersOf ms).map Member.ordinal = List.range (l.described ms).length := by
  rw [membersOf, List.map_map]
  exact (List.zipIdx_map_snd 0 _).trans List.range_eq_range'.symm

theorem sorted_membersOf : (l.membersOf ms).Pairwise fun a b => a.ordinal ≤ b.ordinal := by
  refine List.pairwise_map.1 ?_
  rw [map_ordinal_membersOf]
  exact List.pairwise_le_range

theorem nodup_membersOf : (l.membersOf ms).Nodup := by
  refine List.Nodup.of_map Member.ordinal ?_
  rw [map_ordinal_membersOf]
  exact List.nodup_range

/-- Levels with different unique names have different members. -/
theorem nodup_flatMap_membersOf {ls : List Level} (h : (ls.map fun l => l.label.uniqueName).Nodup) :
    (ls.flatMap (·.membersOf ms)).Nodup := by
  refine List.nodup_flatMap.2 ⟨fun _ _ => nodup_membersOf, ?_⟩
  refine (List.pairwise_map.1 h).imp fun {a b} hne => ?_
  intro x ha hb
  obtain ⟨_, _, -, rfl⟩ := mem_membersOf.1 ha
  obtain ⟨_, _, -, hx⟩ := mem_membersOf.1 hb
  exact hne (congrArg Member.level hx)

end Level

/-! ### Counting and making -/

/-- The level of a unique name, the first one. -/
def levelNamed? (name : String) (ls : List Level) : Option Level :=
  ls.find? fun l => l.label.uniqueName == name

theorem mem_of_levelNamed? {name : String} {ls : List Level} {l : Level}
    (h : levelNamed? name ls = some l) : l ∈ ls ∧ l.label.uniqueName = name :=
  mem_of_find?_key h

/-- **If names tell levels apart**, each of them has what is described for its name. -/
theorem eq_map_counted {ls ls' : List Level} {ms : List MemberDescription}
    (hplaces : ls.map Level.place = ls'.map Level.place)
    (hnamed : ∀ name, levelNamed? name ls = (levelNamed? name ls').map (·.counted ms))
    (hnodup : (ls'.map fun l => l.label.uniqueName).Nodup) : ls = ls'.map (·.counted ms) := by
  have hkeys : ls.map (fun l => l.label.uniqueName) = ls'.map fun l => l.label.uniqueName := by
    have hlabels := congrArg (List.map fun l => l.label.uniqueName) hplaces
    rwa [List.map_map, List.map_map] at hlabels
  refine @eq_of_find?_key Level String _ _ (fun l => l.label.uniqueName) ls _ ?_ ?_ fun name => ?_
  · rw [hkeys, List.map_map]
    rfl
  · rwa [hkeys]
  · rw [List.find?_map]
    exact hnamed name

/-- The counter of the first level with the name of a new member goes up. -/
theorem levelNamed?_countMember (key name : String) (ls : List Level) :
    levelNamed? name (countMember key ls)
      = if name = key then
          (levelNamed? name ls).map fun l => { l with cardinality := l.cardinality + 1 }
        else levelNamed? name ls := by
  induction ls with
  | nil => simp [countMember, levelNamed?]
  | cons l ls ih =>
    by_cases hkey : l.label.uniqueName = key
    · by_cases hname : name = key
      · subst hname hkey
        simp [countMember, levelNamed?]
      · simp [countMember, levelNamed?, hkey, hname, Ne.symm hname]
    · rw [countMember, if_neg (by simpa using hkey)]
      by_cases hname : l.label.uniqueName = name
      · have hne : name ≠ key := fun h => hkey (hname.trans h)
        simp [levelNamed?, hname, hne]
      · have hrest := ih
        simp only [levelNamed?] at hrest
        simp [levelNamed?, hname, hrest]

namespace Populace

/-- What is known of a new member, if it is accepted. -/
theorem add_eq_ok {q q' : Populace} {m : MemberDescription} (h : q.add m = .ok q') :
    ∃ l, levelNamed? m.level q.levels = some l
      ∧ q' = ⟨countMember m.level q.levels, memberOf l m :: q.newest⟩ := by
  rw [add] at h
  split at h
  · cases h
  · rename_i l hfind
    split at h
    · cases h
      exact ⟨l, hfind, rfl⟩
    · split at h
      · cases h
        exact ⟨l, hfind, rfl⟩
      · cases h

/-- Whether the levels have been counted and the members been made of descriptions.  Everything that
is described for the name of several levels belongs to the first one. -/
structure Makes (ls : List Level) (ms : List MemberDescription) (q : Populace) : Prop where
  places : q.levels.map Level.place = ls.map Level.place
  levels : ∀ name, levelNamed? name q.levels = (levelNamed? name ls).map (·.counted ms)
  cardinality : ∀ l ∈ q.levels, l.cardinality ≤ ms.length
  members : ∀ name, q.newest.reverse.filter (·.level == name)
    = ((levelNamed? name ls).map (·.membersOf ms)).getD []

theorem cardinality_countMember {key : String} {ls : List Level} {n : Nat}
    (h : ∀ l ∈ ls, l.cardinality ≤ n) : ∀ l ∈ countMember key ls, l.cardinality ≤ n + 1 := by
  induction ls with
  | nil => exact fun _ hl => absurd hl List.not_mem_nil
  | cons l ls ih =>
    obtain ⟨hl, hls⟩ := List.forall_mem_cons.1 h
    rw [countMember]
    split
    · refine List.forall_mem_cons.2 ⟨Nat.succ_le_succ hl, ?_⟩
      intro l' hl'
      exact (hls l' hl').trans (Nat.le_succ n)
    · exact List.forall_mem_cons.2 ⟨hl.trans (Nat.le_succ n), ih hls⟩

/-- **One more member** is the last one of its level. -/
theorem makes_add {ls : List Level} {ms : List MemberDescription} {q q' : Populace}
    {m : MemberDescription} (hq : q.Makes ls ms) (h : q.add m = .ok q') :
    q'.Makes ls (ms ++ [m]) := by
  obtain ⟨_, hfind, rfl⟩ := add_eq_ok h
  rw [hq.levels] at hfind
  obtain ⟨l, hl, rfl⟩ := Option.map_eq_some_iff.1 hfind
  have hlevel : m.level = l.label.uniqueName := (mem_of_levelNamed? hl).2.symm
  refine ⟨?_, ?_, ?_, ?_⟩
  · exact (map_place_countMember _ _).trans hq.places
  · intro name
    rw [levelNamed?_countMember, hq.levels]
    by_cases hname : name = m.level
    · rw [if_pos hname, hname, hl, Option.map_some, Option.map_some, Option.map_some, Level.counted,
        Level.counted, Level.described_append_of_eq hlevel, List.length_append]
      rfl
    · rw [if_neg hname]
      refine Option.map_congr fun l' hl' => ?_
      have hne : m.level ≠ l'.label.uniqueName := by
        rw [(mem_of_levelNamed? hl').2]
        exact Ne.symm hname
      rw [Level.counted, Level.counted, Level.described_append_of_ne hne]
  · rw [List.length_append]
    exact cardinality_countMember hq.cardinality
  · intro name
    rw [List.reverse_cons, List.filter_append, hq.members]
    by_cases hname : name = m.level
    · have hmade : [memberOf (l.counted ms) m].filter (·.level == name)
          = [l.toMember m (l.described ms).length] := by
        rw [hname, hlevel]
        exact List.filter_cons_of_pos (beq_self_eq_true _)
      rw [hmade, hname, hl, Option.map_some, Option.map_some, Option.getD_some, Option.getD_some,
        Level.membersOf_append_of_eq hlevel]
    · have hnone : [memberOf (l.counted ms) m].filter (·.level == name) = [] := by
        refine List.filter_cons_of_neg ?_
        rw [beq_iff_eq]
        exact fun heq => hname (heq.symm.trans hlevel.symm)
      rw [hnone, List.append_nil]
      congr 1
      refine Option.map_congr fun l' hl' => ?_
      have hne : m.level ≠ l'.label.uniqueName := by
        rw [(mem_of_levelNamed? hl').2]
        exact Ne.symm hname
      rw [Level.membersOf_append_of_ne hne]

end Populace

/-! ### Names that tell levels apart -/

namespace DimensionDescription

variable {dim : DimensionDescription} {cubeName : String}

theorem mem_toLevels {l : Level} : l ∈ dim.toLevels cubeName ↔
    ∃ name depth, dim.levels[depth]? = some name ∧ l = dim.toLevel cubeName name depth := by
  simp only [toLevels, List.mem_map, Prod.exists, List.mem_zipIdx_iff_getElem?]
  constructor
  · rintro ⟨name, depth, hname, rfl⟩
    exact ⟨name, depth, hname, rfl⟩
  · rintro ⟨name, depth, hname, rfl⟩
    exact ⟨name, depth, hname, rfl⟩

/-- **The depths of the levels** are their places. -/
theorem map_depth_toLevels :
    (dim.toLevels cubeName).map Level.depth = List.range dim.levels.length := by
  rw [toLevels, List.map_map]
  exact (List.zipIdx_map_snd 0 _).trans List.range_eq_range'.symm

theorem nodup_toLevels : (dim.toLevels cubeName).Nodup := by
  refine List.Nodup.of_map Level.depth ?_
  rw [map_depth_toLevels]
  exact List.nodup_range

end DimensionDescription

namespace CubeDescription

variable {d : CubeDescription}

theorem mem_toLevels_of_mem {dim : DimensionDescription} (hdim : dim ∈ d.dimensions) {l : Level}
    (hl : l ∈ dim.toLevels d.name) : l ∈ d.toLevels :=
  List.mem_flatMap.2 ⟨dim, hdim, hl⟩

/-- A level that is described has no members yet. -/
theorem map_place_toLevels (d : CubeDescription) : d.toLevels.map Level.place = d.toLevels := by
  refine (List.map_congr_left fun l hl => ?_).trans (List.map_id _)
  obtain ⟨_, _, _, _, _, rfl⟩ := mem_toLevels.1 hl
  rfl

/-- The dimension of the measures is no declared one. -/
theorem Apart.ne_measuresDimension (hd : d.Apart) {dim : DimensionDescription}
    (hdim : dim ∈ d.dimensions) (hmeasures : d.measures.isEmpty = false) :
    measuresDimension ≠ quoteSegment dim.name := by
  intro h
  have hquote : quoteSegment "Measures" = quoteSegment dim.name := h
  exact hd.measures hmeasures (List.mem_map.2 ⟨dim, hdim, (quoteSegment_inj hquote).symm⟩)

/-- **The unique names of the levels differ.** -/
theorem Distinct.nodup_toLevels (hd : d.Distinct) :
    (d.toLevels.map fun l => l.label.uniqueName).Nodup := by
  refine List.Nodup.map_on (fun l hl l' hl' => hd.level_eq hl hl') ?_
  refine List.nodup_flatMap.2 ⟨?_, ?_⟩
  · exact fun dim _ => DimensionDescription.nodup_toLevels
  · refine (List.pairwise_map.1 hd.dimensions).imp fun {a b} hne => ?_
    intro l ha hb
    obtain ⟨_, _, -, rfl⟩ := DimensionDescription.mem_toLevels.1 ha
    obtain ⟨_, _, -, hl⟩ := DimensionDescription.mem_toLevels.1 hb
    exact hne (quoteSegment_inj (congrArg Level.dimension hl))

theorem Distinct.nodup_toLevels_of_mem (hd : d.Distinct) {dim : DimensionDescription}
    (hdim : dim ∈ d.dimensions) :
    ((dim.toLevels d.name).map fun l => l.label.uniqueName).Nodup := by
  refine List.Nodup.map_on (fun l hl l' hl' => ?_) DimensionDescription.nodup_toLevels
  exact hd.level_eq (mem_toLevels_of_mem hdim hl) (mem_toLevels_of_mem hdim hl')

end CubeDescription

/-! ### Cubes -/

namespace CubeDescription

variable {d : CubeDescription}

/-- The measures dimension, if there is a measure. -/
def measuresDimensions (d : CubeDescription) : List Dimension :=
  if d.measures.isEmpty then [] else [measuresDimensionOf d.name d.dimensions.length]

theorem mem_dimensions {a : Dimension} : a ∈ d.toDimensions ++ d.measuresDimensions ↔
    (∃ (dim : DimensionDescription) (ordinal : Nat),
        d.dimensions[ordinal]? = some dim ∧ a = dim.toDimension d.name ordinal)
      ∨ d.measures.isEmpty = false ∧ a = measuresDimensionOf d.name d.dimensions.length := by
  rw [List.mem_append]
  refine or_congr ?_ ?_
  · simp only [toDimensions, List.mem_map, Prod.exists, List.mem_zipIdx_iff_getElem?]
    constructor
    · rintro ⟨dim, ordinal, hdim, rfl⟩
      exact ⟨dim, ordinal, hdim, rfl⟩
    · rintro ⟨dim, ordinal, hdim, rfl⟩
      exact ⟨dim, ordinal, hdim, rfl⟩
  · rw [measuresDimensions]
    cases d.measures.isEmpty <;> simp

/-- **The ordinals of the dimensions** are their places. -/
theorem map_ordinal_dimensions : (d.toDimensions ++ d.measuresDimensions).map Dimension.ordinal
    = List.range (d.dimensions.length + d.measuresDimensions.length) := by
  have hdimensions : d.toDimensions.map Dimension.ordinal = List.range d.dimensions.length := by
    rw [toDimensions, List.map_map]
    exact (List.zipIdx_map_snd 0 _).trans List.range_eq_range'.symm
  rw [List.map_append, hdimensions, measuresDimensions]
  cases d.measures.isEmpty with
  | true => exact List.append_nil _
  | false => exact List.range_succ.symm

end CubeDescription

/-- The members of a dimension, level by level. -/
def CubeDescription.membersIn (d : CubeDescription) (dim : DimensionDescription) : List Member :=
  (dim.toLevels d.name).flatMap (·.membersOf d.members)

/-- What a cube has that is built from a description.  Everything that is described for the name of
several levels belongs to the first one. -/
structure MemoryCube.Filled (d : CubeDescription) (c : MemoryCube) : Prop where
  dimensions : c.dimensions = d.toDimensions ++ d.measuresDimensions
  hierarchies : ∃ rest, c.hierarchies = d.dimensions.map (·.toHierarchy d.name) ++ rest
    ∧ ∀ h ∈ rest, d.measures.isEmpty = false ∧ h = measuresHierarchyOf d.name
  levels : ∃ ls rest, c.levels = ls ++ rest ∧ ls.map Level.place = d.toLevels
    ∧ (∀ name, levelNamed? name ls = (levelNamed? name d.toLevels).map (·.counted d.members))
    ∧ (∀ l ∈ ls, l.cardinality ≤ d.members.length)
    ∧ ∀ l ∈ rest, d.measures.isEmpty = false ∧ l = measuresLevelOf d.name d.measures.length
  members : ∀ name, c.members.filter (·.level == name)
    = ((levelNamed? name d.toLevels).map (·.membersOf d.members)).getD []
  measures : ∀ a ∈ c.measures, d.measures.isEmpty = false ∧ a.level = measuresLevel

/-- Whether a cube has what a description declares. -/
structure MemoryCube.Declared (d : CubeDescription) (c : MemoryCube) : Prop where
  dimensions : c.dimensions = d.toDimensions ++ d.measuresDimensions
  hierarchies : ∃ rest, c.hierarchies = d.dimensions.map (·.toHierarchy d.name) ++ rest
    ∧ ∀ h ∈ rest, h = measuresHierarchyOf d.name
  levels : ∃ rest, c.levels = d.toLevels.map (·.counted d.members) ++ rest
    ∧ ∀ l ∈ rest, l = measuresLevelOf d.name d.measures.length
  members : ∀ l ∈ d.toLevels,
    c.members.filter (·.level == l.label.uniqueName) = l.membersOf d.members
  measures : ∀ a ∈ c.measures, a.level = measuresLevel

private theorem level_addMeasure {level : Level} {measures result : List Member}
    {d : MeasureDescription} (hmeasures : ∀ a ∈ measures, a.level = level.label.uniqueName)
    (h : addMeasure level measures d = .ok result) :
    ∀ a ∈ result, a.level = level.label.uniqueName := by
  cases d with
  | stored name aggregator =>
    cases h
    exact List.forall_mem_append.2 ⟨hmeasures, List.forall_mem_singleton.2 rfl⟩
  | calculated name formula =>
    rw [addMeasure] at h
    split at h
    · rename_i sibling hsibling
      cases h
      have hlevel := hmeasures sibling (List.mem_of_find?_eq_some hsibling)
      exact List.forall_mem_append.2 ⟨hmeasures, List.forall_mem_singleton.2 hlevel⟩
    · cases h

/-- **What a cube has that is built**, whatever its names are. -/
theorem CubeDescription.filled {d : CubeDescription} {c : MemoryCube} (h : d.build = .ok c) :
    c.Filled d := by
  obtain ⟨q, measures, facts, hq, hmeasures, -, rfl⟩ := exists_of_build h
  -- a level that is described has no members yet
  have hnew : ∀ l ∈ d.toLevels, l.cardinality = 0 := by
    intro l hl
    obtain ⟨_, _, _, _, _, rfl⟩ := mem_toLevels.1 hl
    rfl
  -- along the described members and then along the described measures
  have hmakes : q.Makes d.toLevels d.members := by
    refine Outcome.assurance.foldlM (fun ms q => Populace.Makes d.toLevels ms q)
      (fun _ _ _ _ hq _ h => Populace.makes_add hq h) ?_ q hq
    refine ⟨rfl, fun name => ?_, fun l hl => (hnew l hl).le, fun name => ?_⟩
    · refine ((Option.map_congr fun l hl => ?_).trans Option.map_id').symm
      have hzero := hnew l (mem_of_levelNamed? hl).1
      rw [Level.counted, Level.described, List.filter_nil, List.length_nil, ← hzero]
    · cases levelNamed? name d.toLevels <;> rfl
  have hlevels : ∀ a ∈ measures, a.level = measuresLevel :=
    Outcome.assurance.foldlM (fun _ ms => ∀ a ∈ ms, Member.level a = measuresLevel)
      (fun _ _ _ _ hms _ h => level_addMeasure hms h) (fun _ h => absurd h List.not_mem_nil)
      measures hmeasures
  have hnone : ∀ a ∈ measures, d.measures.isEmpty = false := by
    intro a ha
    cases hempty : d.measures with
    | nil =>
      rw [toMeasures, hempty] at hmeasures
      cases hmeasures
      cases ha
    | cons => rfl
  refine ⟨?_, ⟨_, rfl, ?_⟩, ⟨q.levels, _, rfl, hmakes.places.trans (map_place_toLevels d),
    hmakes.levels, hmakes.cardinality, ?_⟩, hmakes.members,
    fun a ha => ⟨hnone a ha, hlevels a ha⟩⟩
  · dsimp only
    rw [measuresDimensions]
    cases d.measures.isEmpty <;> rfl
  · intro a ha
    cases hmeasures : d.measures.isEmpty <;> simp [hmeasures] at ha
    exact ⟨rfl, ha⟩
  · intro a ha
    cases hmeasures : d.measures.isEmpty <;> simp [hmeasures] at ha
    exact ⟨rfl, ha⟩

/-- **A cube that is built has what is declared**, if names tell its dimensions and levels apart. -/
theorem CubeDescription.declared {d : CubeDescription} {c : MemoryCube} (h : d.build = .ok c)
    (hd : d.Distinct) : c.Declared d := by
  have hfilled := filled h
  obtain ⟨rest, hhierarchies, hrest⟩ := hfilled.hierarchies
  obtain ⟨ls, rest', hlevels, hplaces, hnamed, -, hrest'⟩ := hfilled.levels
  refine ⟨hfilled.dimensions, ⟨rest, hhierarchies, fun a ha => (hrest a ha).2⟩,
    ⟨rest', ?_, fun a ha => (hrest' a ha).2⟩, ?_, fun a ha => (hfilled.measures a ha).2⟩
  · have hplaces' := hplaces.trans (map_place_toLevels d).symm
    rw [hlevels, eq_map_counted hplaces' hnamed hd.nodup_toLevels]
  · intro l hl
    have hfirst : levelNamed? l.label.uniqueName d.toLevels = some l :=
      (find?_key_eq_some_iff (List.inj_on_of_nodup_map hd.nodup_toLevels)).2 ⟨hl, rfl⟩
    rw [hfilled.members, hfirst]
    rfl

/-- **The members of a dimension are all that are declared for it.** -/
theorem MemoryCube.Declared.mem_membersIn {d : CubeDescription} {c : MemoryCube}
    (hdeclared : c.Declared d) (hbuilt : c.Built d) (hd : d.Distinct) {dim : DimensionDescription}
    (hdim : dim ∈ d.dimensions) {a : Member} :
    a ∈ d.membersIn dim ↔ a ∈ c.members ∧ a.dimension = quoteSegment dim.name := by
  constructor
  · intro ha
    obtain ⟨l, hl, ha⟩ := List.mem_flatMap.1 ha
    have hmem := ha
    rw [← hdeclared.members l (CubeDescription.mem_toLevels_of_mem hdim hl)] at hmem
    refine ⟨(List.mem_filter.1 hmem).1, ?_⟩
    obtain ⟨_, _, -, rfl⟩ := Level.mem_membersOf.1 ha
    obtain ⟨_, _, -, rfl⟩ := DimensionDescription.mem_toLevels.1 hl
    rfl
  · rintro ⟨ha, hdimension⟩
    -- a member is in a level, and that level is in one dimension
    obtain ⟨l, hl, hlevel, -⟩ := (hbuilt.members a ha).level
    have hmem : a ∈ l.membersOf d.members := by
      rw [← hdeclared.members l hl]
      exact List.mem_filter.2 ⟨ha, beq_iff_eq.2 hlevel⟩
    obtain ⟨dim', hdim', hl'⟩ := List.mem_flatMap.1 hl
    obtain ⟨_, _, -, rfl⟩ := Level.mem_membersOf.1 hmem
    have hname : dim'.name = dim.name := by
      obtain ⟨_, _, -, rfl⟩ := DimensionDescription.mem_toLevels.1 hl'
      exact quoteSegment_inj hdimension
    obtain rfl := List.inj_on_of_nodup_map hd.dimensions hdim' hdim hname
    exact List.mem_flatMap.2 ⟨l, hl', hmem⟩

/-- **No member is declared twice.** -/
theorem CubeDescription.Distinct.nodup_membersIn {d : CubeDescription} (hd : d.Distinct)
    {dim : DimensionDescription} (hdim : dim ∈ d.dimensions) : (d.membersIn dim).Nodup :=
  Level.nodup_flatMap_membersOf (hd.nodup_toLevels_of_mem hdim)

end Datacube
