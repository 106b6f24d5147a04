import Datacube.Proofs.BreadthFirst
import Datacube.Proofs.Declarations
import Datacube.Proofs.Lists
import Datacube.Proofs.RollUps

/-!
# Searches that do not look below members

A search for a segment does not expand members unless it starts at one, because every member is
listed by its own level.  Where this is so, it finds what a search finds that expands every object:
below cubes, dimensions, hierarchies and members.  Below a level only the members of that level are
listed, so a descendant in a deeper level is not found.

## Main definitions

* `Metadata` — lists of the objects of a cube; `Metadata.kids` — the children of an object in them.
* `Metadata.Layered` — whether members are listed by the levels of their depths and hierarchies.
* `Metadata.Below` — the descendants of an object.
* `Metadata.Compares` — how a search compares with one that expands every object.

## Main results

* `Metadata.closed_generation` — **the children of members** are among the members of their
  hierarchy.
* `Metadata.exists_both` — **both searches** find the same above the members.
* `Metadata.find_compares` — **what a search finds**, compared with the first match.
* `MemoryCube.layered_metadata` — members are listed by their own levels in every cube in memory.
* `Metadata.not_find_compares` — **below a level** something may be missed.
-/

namespace Datacube

/-! ### Metadata -/

/-- Lists of the schema objects of a cube. -/
structure Metadata where
  dimensions : List Dimension
  hierarchies : Dimension → List Hierarchy
  levels : Hierarchy → List Level
  members : Level → List Member
  measures : List Member

namespace Metadata

variable (M : Metadata)

/-- Whether a provider answers with these lists for a cube. -/
structure Answers (p : Provider Outcome) (x : Cube) : Prop where
  dimensions : p.dimensions x = .ok M.dimensions
  hierarchies : ∀ d, p.hierarchies x d = .ok (M.hierarchies d)
  levels : ∀ h, p.levels x h = .ok (M.levels h)
  members : ∀ l, p.members x l = .ok (M.members l)
  measures : p.measures x = .ok M.measures

/-- All hierarchies. -/
def allHierarchies : List Hierarchy := M.dimensions.flatMap M.hierarchies

/-- All levels. -/
def allLevels : List Level := M.allHierarchies.flatMap M.levels

/-- The members that a level lists.  Those of a level that holds measures are the measures. -/
def levelMembers (l : Level) : List Member :=
  match M.measures.filter fun a => a.level == l.label.uniqueName with
  | [] => M.members l
  | measures => measures

/-- The members of the next level below a member. -/
def memberChildren (a : Member) : List Member :=
  if a.isMeasure then []
  else match M.allHierarchies.find? fun h => uniqueName h == a.hierarchy with
    | none => []
    | some h =>
      match (M.levels h).find? fun l => l.depth == a.depth + 1 with
      | none => []
      | some l => (M.members l).filter fun b => b.parent == some a.label.uniqueName

/-- The objects directly contained in an object. -/
def kids : SchemaObject → List SchemaObject
  | .cube _ => M.dimensions.map .dimension
  | .dimension d => (M.hierarchies d).map .hierarchy
  | .hierarchy h => (M.levels h).map .level
  | .level l => (M.levelMembers l).map .member
  | .member a => (M.memberChildren a).map .member

/-- Whether an object is listed. -/
def Has : SchemaObject → Prop
  | .cube _ => True
  | .dimension d => d ∈ M.dimensions
  | .hierarchy h => h ∈ M.allHierarchies
  | .level l => l ∈ M.allLevels
  | .member a => a ∈ M.allLevels.flatMap M.members ∨ a ∈ M.measures

/-- Whether an object is a descendant of another one. -/
def Below : SchemaObject → SchemaObject → Prop := Relation.TransGen fun o k => k ∈ M.kids o

/-- Whether members are listed by the levels of their depths and hierarchies. -/
structure Layered : Prop where
  /-- Unique names tell hierarchies apart. -/
  hierarchies : ∀ h ∈ M.allHierarchies, ∀ h' ∈ M.allHierarchies, uniqueName h = uniqueName h' →
    h = h'
  members : ∀ h ∈ M.allHierarchies, ∀ l ∈ M.levels h, ∀ a ∈ M.members l,
    a.hierarchy = uniqueName h ∧ a.depth = l.depth
  measures : ∀ a ∈ M.measures, a.isMeasure = true
  /-- A level that holds measures has no other members. -/
  measuresLevel : ∀ l ∈ M.allLevels, ∀ a ∈ M.measures, a.level = l.label.uniqueName →
    ∀ b ∈ M.members l, b ∈ M.measures ∧ b.level = l.label.uniqueName

variable {M}

theorem mem_allLevels {h : Hierarchy} (hh : h ∈ M.allHierarchies) {l : Level}
    (hl : l ∈ M.levels h) : l ∈ M.allLevels := List.mem_flatMap.2 ⟨h, hh, hl⟩

theorem mem_levelMembers_cases {l : Level} {a : Member} (h : a ∈ M.levelMembers l) :
    a ∈ M.members l ∨ a ∈ M.measures := by
  rw [levelMembers] at h
  cases hmeasures : M.measures.filter fun b => b.level == l.label.uniqueName with
  | nil =>
    rw [hmeasures] at h
    exact .inl h
  | cons b measures =>
    rw [hmeasures] at h
    dsimp only at h
    rw [← hmeasures] at h
    exact .inr (List.mem_filter.1 h).1

/-- A member that belongs to a level is listed by it. -/
theorem Layered.mem_levelMembers (hM : M.Layered) {l : Level} (hl : l ∈ M.allLevels) {a : Member}
    (ha : a ∈ M.members l) : a ∈ M.levelMembers l := by
  rw [levelMembers]
  cases hmeasures : M.measures.filter fun b => b.level == l.label.uniqueName with
  | nil => exact ha
  | cons b measures =>
    obtain ⟨hb, hlevel⟩ := List.mem_filter.1 (hmeasures ▸ List.mem_cons_self : b ∈ _)
    obtain ⟨ha, hlevel'⟩ := hM.measuresLevel l hl b hb (eq_of_beq hlevel) a ha
    dsimp only
    rw [← hmeasures]
    exact List.mem_filter.2 ⟨ha, beq_iff_eq.2 hlevel'⟩

/-- What is known of a child of a member. -/
theorem mem_memberChildren {a k : Member} (hk : k ∈ M.memberChildren a) :
    a.isMeasure = false ∧ ∃ h ∈ M.allHierarchies, uniqueName h = a.hierarchy
      ∧ ∃ l ∈ M.levels h, l.depth = a.depth + 1 ∧ k ∈ M.members l := by
  rw [memberChildren] at hk
  split at hk
  · cases hk
  · rename_i hmeasure
    split at hk
    · cases hk
    · rename_i h hh
      obtain ⟨hmem, hname⟩ := mem_of_find?_key hh
      split at hk
      · cases hk
      · rename_i l hl
        obtain ⟨hlmem, hdepth⟩ := mem_of_find?_key hl
        exact ⟨Bool.not_eq_true _ ▸ hmeasure, h, hmem, hname, l, hlmem, hdepth,
          (List.mem_filter.1 hk).1⟩

theorem has_of_mem_kids {o k : SchemaObject} (ho : M.Has o) (hk : k ∈ M.kids o) : M.Has k := by
  cases o with
  | cube x =>
    obtain ⟨d, hd, rfl⟩ := List.mem_map.1 hk
    exact hd
  | dimension d =>
    obtain ⟨h, hh, rfl⟩ := List.mem_map.1 hk
    exact List.mem_flatMap.2 ⟨d, ho, hh⟩
  | hierarchy h =>
    obtain ⟨l, hl, rfl⟩ := List.mem_map.1 hk
    exact mem_allLevels ho hl
  | level l =>
    obtain ⟨a, ha, rfl⟩ := List.mem_map.1 hk
    exact (mem_levelMembers_cases ha).imp_left fun ha => List.mem_flatMap.2 ⟨l, ho, ha⟩
  | member a =>
    obtain ⟨b, hb, rfl⟩ := List.mem_map.1 hk
    obtain ⟨-, h, hh, -, l, hl, -, hmem⟩ := mem_memberChildren hb
    exact .inl (List.mem_flatMap.2 ⟨l, mem_allLevels hh hl, hmem⟩)

/-! ### What providers answer -/

section

variable {p : Provider Outcome} {x : Cube} (hp : M.Answers p x)

include hp

theorem hierarchyIn_eq {name : String} {ds : List Dimension} {h : Hierarchy}
    (hfind : (ds.flatMap M.hierarchies).find? (fun h => uniqueName h == name) = some h) :
    p.hierarchyIn x name ds = .ok h := by
  induction ds with
  | nil => cases hfind
  | cons d ds ih =>
    rw [List.flatMap_cons, List.find?_append] at hfind
    rw [Provider.hierarchyIn, hp.hierarchies]
    dsimp only [bind, Except.bind]
    cases hfirst : (M.hierarchies d).find? fun h => uniqueName h == name with
    | some h' =>
      rw [hfirst] at hfind
      cases hfind
      rfl
    | none =>
      rw [hfirst, Option.none_or] at hfind
      exact ih hfind

theorem levelMembers_eq (l : Level) : p.levelMembers x l = .ok (M.levelMembers l) := by
  rw [Provider.levelMembers, hp.measures, levelMembers]
  dsimp only [bind, Except.bind]
  cases M.measures.filter fun a => a.level == l.label.uniqueName with
  | nil => exact hp.members l
  | cons a measures => rfl

theorem memberChildren_eq {a : Member} (ha : a.isMeasure = true
    ∨ ∃ h ∈ M.allHierarchies, uniqueName h = a.hierarchy) :
    p.memberChildren x a = .ok (M.memberChildren a) := by
  rw [Provider.memberChildren, memberChildren]
  by_cases hmeasure : a.isMeasure = true
  · rw [if_pos hmeasure, if_pos hmeasure]
    rfl
  · obtain ⟨h, hh, hname⟩ := ha.resolve_left hmeasure
    obtain ⟨h', hfind⟩ := exists_find?_key hh hname
    rw [if_neg hmeasure, if_neg hmeasure, Provider.hierarchy, hp.dimensions, hfind]
    dsimp only [bind, Except.bind, pure, Except.pure]
    rw [hierarchyIn_eq hp hfind]
    dsimp only
    rw [hp.levels]
    dsimp only
    cases (M.levels h').find? fun l => l.depth == a.depth + 1 with
    | none => rfl
    | some l =>
      dsimp only
      rw [hp.members]

/-- **A provider lists the children** of every object that it lists. -/
theorem children_eq (hM : M.Layered) {o : SchemaObject} (ho : M.Has o) :
    p.children x o = .ok (M.kids o) := by
  cases o with
  | cube y => rw [Provider.children, hp.dimensions]; rfl
  | dimension d => rw [Provider.children, hp.hierarchies]; rfl
  | hierarchy h => rw [Provider.children, hp.levels]; rfl
  | level l => rw [Provider.children, levelMembers_eq hp]; rfl
  | member a =>
    rw [Provider.children, memberChildren_eq hp]
    · rfl
    · rcases ho with ha | ha
      · obtain ⟨l, hl, ha⟩ := List.mem_flatMap.1 ha
        obtain ⟨h, hh, hl⟩ := List.mem_flatMap.1 hl
        exact .inr ⟨h, hh, (hM.members h hh l hl a ha).1.symm⟩
      · exact .inl (hM.measures a ha)

end

/-! ### Generations -/

variable (M) in
/-- The objects a number of generations below others. -/
def generation : Nat → List SchemaObject → List SchemaObject
  | 0, os => os
  | n + 1, os => generation n (os.flatMap M.kids)

variable (M) in
/-- Whether the children of objects are among these. -/
def Closed (os : List SchemaObject) : Prop := ∀ o ∈ os, ∀ k ∈ M.kids o, k ∈ os

theorem generation_eq_flatMap (n : Nat) (os : List SchemaObject) :
    M.generation n os = os.flatMap fun o => M.generation n [o] := by
  induction n generalizing os with
  | zero => exact (List.flatMap_singleton' os).symm
  | succ n ih =>
    rw [generation, ih, List.flatMap_assoc]
    refine List.flatMap_congr fun o _ => ?_
    rw [generation, ih ([o].flatMap M.kids), List.flatMap_singleton]

theorem Closed.flatMap {α : Type} {f : α → List SchemaObject} {as : List α}
    (h : ∀ a ∈ as, M.Closed (f a)) : M.Closed (as.flatMap f) := by
  intro o ho k hk
  obtain ⟨a, ha, ho⟩ := List.mem_flatMap.1 ho
  exact List.mem_flatMap.2 ⟨a, ha, h a ha o ho k hk⟩

theorem closed_generation_succ {n : Nat} {o : SchemaObject}
    (h : ∀ k ∈ M.kids o, M.Closed (M.generation n [k])) : M.Closed (M.generation (n + 1) [o]) := by
  rw [generation, List.flatMap_singleton, generation_eq_flatMap]
  exact Closed.flatMap h

/-- The members of a hierarchy have their children among them. -/
theorem closed_generation_hierarchy (hM : M.Layered) {h : Hierarchy} (hh : h ∈ M.allHierarchies) :
    M.Closed (M.generation 2 [.hierarchy h]) := by
  have hmem : ∀ o, o ∈ M.generation 2 [.hierarchy h] ↔
      ∃ l ∈ M.levels h, ∃ a ∈ M.levelMembers l, o = .member a := by
    intro o
    simp only [generation, List.flatMap_singleton, kids, List.mem_flatMap, List.mem_map]
    constructor
    · rintro ⟨_, ⟨l, hl, rfl⟩, ho⟩
      obtain ⟨a, ha, rfl⟩ := List.mem_map.1 ho
      exact ⟨l, hl, a, ha, rfl⟩
    · rintro ⟨l, hl, a, ha, rfl⟩
      exact ⟨_, ⟨l, hl, rfl⟩, List.mem_map.2 ⟨a, ha, rfl⟩⟩
  intro o ho k hk
  obtain ⟨l, hl, a, ha, rfl⟩ := (hmem o).1 ho
  obtain ⟨b, hb, rfl⟩ := List.mem_map.1 hk
  obtain ⟨hregular, h', hh', hname, l', hl', -, hb⟩ := mem_memberChildren hb
  -- the hierarchy of the member is the one in which it is listed
  have ha : a ∈ M.members l := by
    refine (mem_levelMembers_cases ha).resolve_right fun ha => ?_
    rw [hM.measures a ha] at hregular
    cases hregular
  obtain rfl := hM.hierarchies h' hh' h hh (hname.trans (hM.members h hh l hl a ha).1)
  exact (hmem _).2 ⟨l', hl', b, hM.mem_levelMembers (mem_allLevels hh' hl') hb, rfl⟩

/-- **The children of members** are among the members below every cube, dimension or hierarchy. -/
theorem closed_generation (hM : M.Layered) {o : SchemaObject} (ho : M.Has o) (hrank : 2 ≤ o.rank) :
    M.Closed (M.generation o.rank [o]) := by
  have hdimension : ∀ d ∈ M.dimensions, M.Closed (M.generation 3 [.dimension d]) := by
    intro d hd
    refine closed_generation_succ fun k hk => ?_
    obtain ⟨h, hh, rfl⟩ := List.mem_map.1 hk
    exact closed_generation_hierarchy hM (List.mem_flatMap.2 ⟨d, hd, hh⟩)
  cases o with
  | cube x =>
    refine closed_generation_succ fun k hk => ?_
    obtain ⟨d, hd, rfl⟩ := List.mem_map.1 hk
    exact hdimension d hd
  | dimension d => exact hdimension d ho
  | hierarchy h => exact closed_generation_hierarchy hM ho
  | level l => cases Nat.not_succ_le_self _ hrank
  | member a => cases Nat.not_succ_le_zero _ hrank

/-! ### Searches -/

/-- What becomes smaller from an object to its children if no level is deeper than a number. -/
def weight (n : Nat) : SchemaObject → Nat
  | .member a => n - a.depth
  | o => n + o.rank

theorem weight_lt (hM : M.Layered) {n : Nat} (hdeep : ∀ l ∈ M.allLevels, l.depth ≤ n)
    {o k : SchemaObject} (hk : k ∈ M.kids o) : weight n k < weight n o := by
  cases o with
  | cube | dimension | hierarchy =>
    obtain ⟨a, -, rfl⟩ := List.mem_map.1 hk
    exact Nat.lt_succ_self _
  | level l =>
    obtain ⟨a, -, rfl⟩ := List.mem_map.1 hk
    exact Nat.lt_succ_of_le (Nat.sub_le n a.depth)
  | member a =>
    obtain ⟨b, hb, rfl⟩ := List.mem_map.1 hk
    obtain ⟨-, h, hh, -, l, hl, hdepth, hb⟩ := mem_memberChildren hb
    have hless := hdeep l (mem_allLevels hh hl)
    rw [hdepth] at hless
    rw [weight, weight, (hM.members h hh l hl b hb).2, hdepth]
    exact Nat.sub_succ_lt_self _ _ hless

theorem weight_lt_add_five (n : Nat) (o : SchemaObject) : weight n o < n + 5 := by
  cases o <;> simp only [weight, SchemaObject.rank] <;> omega

theorem rank_of_mem_kids {o k : SchemaObject} (hk : k ∈ M.kids o) : k.rank = o.rank - 1 := by
  cases o with
  | cube | dimension | hierarchy | level | member =>
    obtain ⟨a, -, rfl⟩ := List.mem_map.1 hk
    rfl

theorem isContainer_iff {o : SchemaObject} : Provider.isContainer o = true ↔ 0 < o.rank := by
  cases o with
  | cube | dimension | hierarchy | level => exact ⟨fun _ => Nat.succ_pos _, fun _ => rfl⟩
  | member a => exact ⟨nofun, fun h => absurd h (Nat.lt_irrefl 0)⟩

/-- **Both searches** find the same above the members, if the search that expands every object ends
and the children of the members below are among them. -/
theorem exists_both {named : SchemaObject → Bool}
    (hends : ∀ os, (∀ o ∈ os, M.Has o) → ∃ found, Explores M.kids (fun _ => true) named os found)
    {n : Nat} {os : List SchemaObject} (hos : ∀ o ∈ os, M.Has o ∧ o.rank = n)
    (hunnamed : ∀ o ∈ os, named o = false) (hclosed : M.Closed (M.generation n os)) :
    ∃ found, Explores M.kids Provider.isContainer named os found
      ∧ Explores M.kids (fun _ => true) named os found := by
  induction n generalizing os with
  | zero =>
    obtain ⟨found, hfound⟩ := hends os fun o ho => (hos o ho).1
    have hnone : found = none := by
      refine hfound.eq_none_of_closed (S := (· ∈ os)) (fun o ho k hk => ?_) fun o ho => ho
      exact ⟨hclosed o ho k hk, hunnamed k (hclosed o ho k hk)⟩
    refine ⟨none, .of_filter_eq_nil (List.filter_eq_nil_iff.2 fun o ho => ?_), hnone ▸ hfound⟩
    rw [isContainer_iff, (hos o ho).2]
    exact Nat.lt_irrefl 0
  | succ n ih =>
    have hpruned : os.filter Provider.isContainer = os :=
      List.filter_eq_self.2 fun o ho => isContainer_iff.2 ((hos o ho).2 ▸ Nat.succ_pos n)
    have hfull : os.filter (fun _ => true) = os := List.filter_eq_self.2 fun _ _ => rfl
    cases hfind : (os.flatMap M.kids).find? named with
    | some k =>
      refine ⟨some k, ?_, ?_⟩
      · exact List.append_nil os ▸ .of_found [] (hpruned.symm ▸ hfind)
      · exact List.append_nil os ▸ .of_found [] (hfull.symm ▸ hfind)
    | none =>
      have hnext : ∀ k ∈ os.flatMap M.kids, M.Has k ∧ k.rank = n := by
        intro k hk
        obtain ⟨o, ho, hk⟩ := List.mem_flatMap.1 hk
        refine ⟨has_of_mem_kids (hos o ho).1 hk, ?_⟩
        rw [rank_of_mem_kids hk, (hos o ho).2]
        rfl
      obtain ⟨found, hboth⟩ := ih hnext (fun k hk =>
        Bool.not_eq_true _ ▸ List.find?_eq_none.1 hfind k hk) hclosed
      refine ⟨found, ?_, ?_⟩
      · exact List.append_nil os ▸ .of_next [] (hpruned.symm ▸ hfind) (hpruned.symm ▸ hboth.1)
      · exact List.append_nil os ▸ .of_next [] (hfull.symm ▸ hfind) (hfull.symm ▸ hboth.2)

/-- **Both searches** find the same below a cube, a dimension or a hierarchy. -/
theorem exists_both_below (hM : M.Layered) {named : SchemaObject → Bool}
    (hends : ∀ os, (∀ o ∈ os, M.Has o) → ∃ found, Explores M.kids (fun _ => true) named os found)
    {o : SchemaObject} (ho : M.Has o) (hrank : 2 ≤ o.rank) (hfind : (M.kids o).find? named = none) :
    ∃ found, Explores M.kids Provider.isContainer named (M.kids o) found
      ∧ Explores M.kids (fun _ => true) named [o] found := by
  obtain ⟨n, hn⟩ := Nat.exists_eq_add_of_le' (Nat.le_of_succ_le hrank)
  have hclosed := closed_generation hM ho hrank
  rw [hn, generation, List.flatMap_singleton] at hclosed
  obtain ⟨found, hpruned, hfull⟩ := exists_both hends
    (fun k hk => ⟨has_of_mem_kids ho hk, (rank_of_mem_kids hk).trans (hn ▸ rfl)⟩)
    (fun k hk => Bool.not_eq_true _ ▸ List.find?_eq_none.1 hfind k hk) hclosed
  exact ⟨found, hpruned, .next rfl hfind hfull⟩

variable (M) in
/-- How what a search finds below an object compares with what a search finds that expands every
object. -/
structure Compares (o : SchemaObject) (segment : String) (found full : Option SchemaObject) :
    Prop where
  /-- The search that expands every object finds one thing. -/
  explores : ∀ r, Explores M.kids (fun _ => true) (·.isNamed segment) [o] r ↔ r = full
  named : ∀ k, full = some k → M.Below o k ∧ k.isNamed segment = true
  none : full = none ↔ ∀ k, M.Below o k → k.isNamed segment = false
  agrees : found = full ↔ (∀ l, o ≠ .level l) ∨ (∃ k ∈ M.kids o, k.isNamed segment = true)
    ∨ ∀ k, M.Below o k → k.isNamed segment = false
  /-- Below a level, only the members of the level are found. -/
  level : ∀ l, o = .level l → found = (M.kids o).find? (·.isNamed segment)

theorem Compares.of_explores {o : SchemaObject} {segment : String}
    {found full : Option SchemaObject}
    (hfull : Explores M.kids (fun _ => true) (·.isNamed segment) [o] full)
    (hother : (∀ l, o ≠ .level l) → found = full)
    (hlevel : ∀ l, o = .level l → found = (M.kids o).find? (·.isNamed segment)) :
    M.Compares o segment found full := by
  have hnone := hfull.eq_none_iff fun _ => rfl
  rw [List.forall_mem_singleton] at hnone
  refine ⟨fun r => ⟨fun hr => hr.functional hfull, fun hr => hr ▸ hfull⟩, ?_, hnone, ?_, hlevel⟩
  · rintro k rfl
    obtain ⟨hnamed, a, ha, hbelow⟩ := hfull.named_of_some
    rw [List.mem_singleton.1 ha] at hbelow
    exact ⟨hbelow, hnamed⟩
  · by_cases ho : ∀ l, o ≠ .level l
    · exact ⟨fun _ => .inl ho, fun _ => hother ho⟩
    · obtain ⟨l, hl⟩ := not_forall_not.1 ho
      rw [hlevel l hl]
      cases hfind : (M.kids o).find? (·.isNamed segment) with
      | some k =>
        have hchild := List.mem_of_find?_eq_some hfind
        have hnamed := List.find?_some hfind
        refine ⟨fun _ => .inr (.inl ⟨k, hchild, hnamed⟩), fun _ => ?_⟩
        exact (Explores.found rfl hfind).functional hfull
      | none =>
        constructor
        · exact fun heq => .inr (.inr (hnone.1 heq.symm))
        · rintro (hother | ⟨k, hk, hnamed⟩ | hnowhere)
          · exact absurd hother ho
          · exact absurd hnamed (List.find?_eq_none.1 hfind k hk)
          · exact (hnone.2 hnowhere).symm

section

variable {p : Provider Outcome} {x : Cube} (hp : M.Answers p x) (hM : M.Layered)

include hp hM

/-- **A search that expands every object** ends if it may descend far enough. -/
theorem exists_full {n fuel : Nat} (hdeep : ∀ l ∈ M.allLevels, l.depth ≤ n) (segment : String)
    {os : List SchemaObject} (hos : ∀ o ∈ os, M.Has o ∧ weight n o < fuel) :
    ∃ found, p.descend (fun _ => true) x segment fuel os = .ok found
      ∧ Explores M.kids (fun _ => true) (·.isNamed segment) os found :=
  Provider.exists_descend (weight n) (fun _ ho => children_eq hp hM ho)
    (fun _ ho _ _ hk => ⟨has_of_mem_kids ho hk, weight_lt hM hdeep hk⟩)
    fun o ho => ⟨(hos o ho).1, fun _ => (hos o ho).2⟩

/-- **A search that does not expand members** ends after as many generations as there are kinds. -/
theorem exists_pruned {fuel : Nat} (segment : String) {os : List SchemaObject}
    (hos : ∀ o ∈ os, M.Has o ∧ o.rank < fuel) :
    ∃ found, p.descend Provider.isContainer x segment fuel os = .ok found
      ∧ Explores M.kids Provider.isContainer (·.isNamed segment) os found := by
  refine Provider.exists_descend SchemaObject.rank (fun _ ho => children_eq hp hM ho)
    (fun o ho hexpands k hk => ⟨has_of_mem_kids ho hk, ?_⟩)
    fun o ho => ⟨(hos o ho).1, fun _ => (hos o ho).2⟩
  rw [rank_of_mem_kids hk]
  exact Nat.sub_lt (isContainer_iff.1 hexpands) Nat.one_pos

variable (hdeep : ∀ l ∈ M.allLevels, l.depth ≤ p.generations) {o : SchemaObject} (ho : M.Has o)
  {segment : String} (hfind : (M.kids o).find? (·.isNamed segment) = none)

include hdeep

theorem exists_explores {os : List SchemaObject} (hos : ∀ a ∈ os, M.Has a) :
    ∃ found, Explores M.kids (fun _ => true) (·.isNamed segment) os found := by
  obtain ⟨found, -, hfound⟩ := exists_full hp hM hdeep segment fun a ha =>
    ⟨hos a ha, weight_lt_add_five p.generations a⟩
  exact ⟨found, hfound⟩

include ho hfind

/-- Below a cube, a dimension or a hierarchy, nothing is missed. -/
theorem exists_descend_container (hrank : 2 ≤ o.rank) :
    ∃ found full, p.descend Provider.isContainer x segment o.rank (M.kids o) = .ok found
      ∧ M.Compares o segment found full := by
  have hpos : 0 < o.rank := Nat.lt_of_lt_of_le Nat.two_pos hrank
  obtain ⟨found, hdescend, hpruned⟩ := exists_pruned hp hM segment fun k hk =>
    ⟨has_of_mem_kids ho hk, rank_of_mem_kids hk ▸ Nat.sub_lt hpos Nat.one_pos⟩
  obtain ⟨full, hpruned', hfull⟩ :=
    exists_both_below hM (fun _ => exists_explores hp hM hdeep) ho hrank hfind
  refine ⟨found, full, hdescend,
    .of_explores hfull (fun _ => hpruned.functional hpruned') fun l hl => ?_⟩
  rw [hl] at hrank
  exact absurd hrank (Nat.not_succ_le_self 1)

/-- Below a member, every object is expanded. -/
theorem exists_descend_member {a : Member} (ha : o = .member a) :
    ∃ found full, p.descend (fun _ => true) x segment p.generations (M.kids o) = .ok found
      ∧ M.Compares o segment found full := by
  subst ha
  obtain ⟨found, hdescend, hfound⟩ := exists_full hp hM hdeep segment fun k hk =>
    ⟨has_of_mem_kids ho hk, (weight_lt hM hdeep hk).trans_le (Nat.sub_le _ _)⟩
  exact ⟨found, found, hdescend, .of_explores (.next rfl hfind hfound) (fun _ => rfl) nofun⟩

/-- Below a level, the search ends with the members of the level, none of which is expanded. -/
theorem exists_descend_level {l : Level} (hl : o = .level l) :
    ∃ found full, p.descend Provider.isContainer x segment o.rank (M.kids o) = .ok found
      ∧ M.Compares o segment found full := by
  subst hl
  have hrank : ∀ k ∈ M.kids (.level l), k.rank = 0 := fun k hk => rank_of_mem_kids hk
  obtain ⟨found, hdescend, hpruned⟩ := exists_pruned hp hM segment fun k hk =>
    ⟨has_of_mem_kids ho hk, Nat.lt_succ_of_le (hrank k hk).le⟩
  obtain ⟨full, hfull⟩ := exists_explores hp hM hdeep fun k hk => has_of_mem_kids ho hk
  have hskipped : (M.kids (.level l)).filter Provider.isContainer = [] := by
    refine List.filter_eq_nil_iff.2 fun k hk => ?_
    rw [isContainer_iff, hrank k hk]
    exact Nat.lt_irrefl 0
  have hnone : found = none := hpruned.functional (.of_filter_eq_nil hskipped)
  exact ⟨found, full, hdescend, .of_explores (.next rfl hfind hfull)
    (fun hother => absurd rfl (hother l)) fun _ _ => hnone.trans hfind.symm⟩

omit hfind

/-- **What a search finds** below an object is what is found by expanding every object, unless the
search begins at a level: then a segment that names no member of the level finds nothing, while
deeper levels may have one that it names. -/
theorem find_compares (segment : String) :
    ∃ found full, p.find x o segment = .ok found ∧ M.Compares o segment found full := by
  rw [Provider.find, children_eq hp hM ho]
  dsimp only [bind, Except.bind]
  cases hfind : (M.kids o).find? (·.isNamed segment) with
  | some k =>
    exact ⟨some k, some k, rfl,
      .of_explores (.found rfl hfind) (fun _ => rfl) fun _ _ => hfind.symm⟩
  | none =>
    cases o with
    | cube | dimension | hierarchy =>
      exact exists_descend_container hp hM hdeep ho hfind (Nat.le_add_left _ _)
    | level l => exact exists_descend_level hp hM hdeep ho hfind rfl
    | member a => exact exists_descend_member hp hM hdeep ho hfind rfl

end

end Metadata

/-! ### Cubes in memory -/

/-- A provider that answers with lists, whatever it is asked about. -/
def Metadata.provider (M : Metadata) : Provider Outcome where
  cube _ := .ok none
  dimensions _ := .ok M.dimensions
  hierarchies _ d := .ok (M.hierarchies d)
  levels _ h := .ok (M.levels h)
  members _ l := .ok (M.members l)
  measures _ := .ok M.measures

theorem Metadata.answers_provider (M : Metadata) (x : Cube) : M.Answers M.provider x :=
  ⟨rfl, fun _ => rfl, fun _ => rfl, fun _ => rfl, rfl⟩

namespace MemoryCube

/-- The schema objects of a cube in memory. -/
def metadata (c : MemoryCube) : Metadata where
  dimensions := c.dimensions
  hierarchies d := c.hierarchies.filter (·.dimension == d.label.uniqueName)
  levels h := c.levels.filter (·.hierarchy == h.label.uniqueName)
  members l := c.members.filter (·.level == l.label.uniqueName)
  measures := c.measures

variable {d : CubeDescription} {c : MemoryCube}

theorem mem_of_mem_allHierarchies {h : Hierarchy} (hh : h ∈ c.metadata.allHierarchies) :
    h ∈ c.hierarchies := by
  obtain ⟨_, -, hh⟩ := List.mem_flatMap.1 hh
  exact (List.mem_filter.1 hh).1

theorem Filled.hierarchy_eq (hc : c.Filled d) (hd : d.Distinct) {h h' : Hierarchy}
    (hh : h ∈ c.hierarchies) (hh' : h' ∈ c.hierarchies) (heq : uniqueName h = uniqueName h') :
    h = h' := by
  obtain ⟨rest, hhierarchies, hrest⟩ := hc.hierarchies
  have hcases : ∀ a ∈ c.hierarchies, (∃ dim ∈ d.dimensions, a = dim.toHierarchy d.name)
      ∨ a = measuresHierarchyOf d.name := by
    intro a ha
    rw [hhierarchies] at ha
    rcases List.mem_append.1 ha with ha | ha
    · obtain ⟨dim, hdim, rfl⟩ := List.mem_map.1 ha
      exact .inl ⟨dim, hdim, rfl⟩
    · exact .inr (hrest a ha).2
  have hne : ∀ dim ∈ d.dimensions, quoteSegment dim.name ≠ quoteSegment "Measures" :=
    fun dim hdim hname => hd.measures (List.mem_map.2 ⟨dim, hdim, quoteSegment_inj hname⟩)
  rcases hcases h hh with ⟨dim, hdim, rfl⟩ | rfl <;>
    rcases hcases h' hh' with ⟨dim', hdim', rfl⟩ | rfl
  · rw [List.inj_on_of_nodup_map hd.dimensions hdim hdim' (quoteSegment_inj heq)]
  · exact absurd heq (hne dim hdim)
  · exact absurd heq.symm (hne dim' hdim')
  · rfl

/-- **The members of a cube that is built** are listed by the levels of their depths and
hierarchies, if names tell its dimensions and levels apart. -/
theorem layered_metadata (hbuild : d.build = .ok c) (hd : d.Distinct) : c.metadata.Layered := by
  have hb := CubeDescription.built hbuild
  have hfilled := CubeDescription.filled hbuild
  have hnever : ∀ a ∈ c.members, a.level ≠ measuresLevel := by
    intro a ha
    obtain ⟨l, hl, hlevel, -⟩ := (hb.members a ha).level
    exact hlevel ▸ hd.ne_measuresLevel hl
  refine ⟨fun h hh h' hh' => ?_, fun h _ l hl a ha => ?_, fun a ha => (hb.measures a ha).isMeasure,
    fun l _ a ha hlevel b hb => ?_⟩
  · exact hfilled.hierarchy_eq hd (mem_of_mem_allHierarchies hh) (mem_of_mem_allHierarchies hh')
  · obtain ⟨hl, hhierarchy⟩ := List.mem_filter.1 hl
    obtain ⟨hmem, hlevel⟩ := List.mem_filter.1 ha
    obtain ⟨l', hl', hlevel', hhierarchy', hdepth'⟩ := (hb.members a hmem).level
    rcases hb.levels l hl with ⟨l'', hl'', hplace⟩ | rfl
    · obtain ⟨hlabel, hsame, hdepth⟩ := Level.same_of_place hplace
      -- the level that lists the member and the one that it was made for have the same name
      have hname : l'.label.uniqueName = l''.label.uniqueName := by
        rw [← hlevel', hlabel]
        exact eq_of_beq hlevel
      obtain rfl := hd.level_eq hl' hl'' hname
      exact ⟨hhierarchy'.trans (hsame.trans (eq_of_beq hhierarchy)), hdepth'.trans hdepth⟩
    · exact absurd (eq_of_beq hlevel) (hnever a hmem)
  · obtain ⟨hb, hlevel'⟩ := List.mem_filter.1 hb
    rw [← hlevel, (hfilled.measures a ha).2] at hlevel'
    exact absurd (eq_of_beq hlevel') (hnever b hb)

end MemoryCube

namespace Metadata

open MemoryCube

theorem layered_visits : visitsCube.metadata.Layered :=
  layered_metadata build_visits ⟨by decide, by decide, by decide⟩

/-- The hierarchy of the places of the visits. -/
def visitsPlaces : Hierarchy := DimensionDescription.toHierarchy "Visits" ⟨"Geo", .other, []⟩

/-- The countries of the visits. -/
def visitsCountries : Level := { visitsLevel "Geo" "Country" 0 with cardinality := 1 }

/-- A city of the visits. -/
def visitsGraz : Member :=
  { Member.regular (.ofName "[Geo].[AT].[Graz]" "Graz") (visitsLevel "Geo" "City" 1) 0 with
    parent := some "[Geo].[AT]" }

set_option maxRecDepth 100000 in
/-- Below the hierarchy of the places, a city is found. -/
theorem find_compares_visits :
    visitsCube.metadata.provider.find visitsCube.cube (.hierarchy visitsPlaces) "Graz"
        = .ok (some (.member visitsGraz))
      ∧ Explores visitsCube.metadata.kids (fun _ => true) (·.isNamed "Graz")
        [.hierarchy visitsPlaces] (some (.member visitsGraz)) := by
  have hdeep : ∀ l ∈ visitsCube.metadata.allLevels,
      l.depth ≤ visitsCube.metadata.provider.generations := by
    decide +kernel
  have hplaces : visitsPlaces ∈ visitsCube.metadata.allHierarchies := by decide +kernel
  obtain ⟨found, full, hfind, hcompares⟩ := find_compares (answers_provider _ visitsCube.cube)
    layered_visits hdeep (o := .hierarchy visitsPlaces) hplaces "Graz"
  have hgraz : visitsCube.metadata.provider.find visitsCube.cube (.hierarchy visitsPlaces) "Graz"
      = .ok (some (.member visitsGraz)) := by
    decide +kernel
  obtain rfl := Except.ok.inj (hfind.symm.trans hgraz)
  exact ⟨hgraz, (hcompares.explores _).2 (hcompares.agrees.2 (.inl nofun))⟩

set_option maxRecDepth 100000 in
/-- **Below the level of the countries, no city is found**, although it is a descendant: it is a
child of a country. -/
theorem not_find_compares : visitsCube.metadata.Layered
    ∧ visitsCountries ∈ visitsCube.metadata.allLevels
    ∧ visitsCube.metadata.provider.find visitsCube.cube (.level visitsCountries) "Graz" = .ok none
    ∧ Explores visitsCube.metadata.kids (fun _ => true) (·.isNamed "Graz")
      [.level visitsCountries] (some (.member visitsGraz)) := by
  refine ⟨layered_visits, by decide +kernel, by decide +kernel, ?_⟩
  have hkids : visitsCube.metadata.kids (.level visitsCountries) =
      [.member (Member.regular (.ofName "[Geo].[AT]" "AT") (visitsLevel "Geo" "Country" 0) 0)] := by
    decide +kernel
  refine .next rfl (by decide +kernel) ?_
  rw [List.nil_append, hkids]
  exact .found rfl (by decide +kernel)

end Metadata

end Datacube
