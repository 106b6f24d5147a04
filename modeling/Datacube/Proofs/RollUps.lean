import Datacube.Proofs.Ancestors
import Datacube.Proofs.CellAccess
import Datacube.Proofs.Executions
import Mathlib.Algebra.GroupWithZero.Nat

/-!
# Roll-ups to shallower levels

If a plan rolls up to a shallower level of a hierarchy than another one, its groups are made of the
groups of the other plan.  An observation that has an ancestor at the deeper level has one at the
shallower level as well, and it is the ancestor of that ancestor; what else is in a group has no
member at or below the deeper level.

## Main definitions

* `MemoryCube.Rooted` — whether every member below a root level has a parent.
* `MemoryCube.coarserKey?` — the key of a group with the ancestor in place of a member.
* `MemoryCube.groupsBelow` — the groups below a key of the coarser plan.
* `MemoryCube.reachesLevel` — whether an observation has a member at or below a level.
* `MemoryCube.Coheres` — how the groups of two plans are related.
* `MeasureScope.count` — the number of values of a measure.

## Main results

* `MemoryCube.ancestorAt?_ancestorAt?` — **going up in one or in two steps** is the same.
* `MemoryCube.groupKey?_coarser` — **the key of an observation** in both plans.
* `MemoryCube.coheres_groups` — **the groups of two plans** that differ in one level.
* `MemoryCube.rollUp_coherent` — **groups at a shallower level** are made of those at a deeper one.
-/

namespace Datacube

/-! ### Lists in parts -/

private theorem nodup_eraseDups {α : Type} [BEq α] [LawfulBEq α] :
    ∀ (n : Nat) (as : List α), as.length ≤ n → as.eraseDups.Nodup := by
  intro n
  induction n with
  | zero =>
    intro as h
    rw [List.length_eq_zero_iff.1 (Nat.le_zero.1 h)]
    exact List.nodup_nil
  | succ n ih =>
    intro as h
    cases as with
    | nil => exact List.nodup_nil
    | cons a as =>
      rw [List.eraseDups_cons]
      refine List.nodup_cons.2 ⟨?_, ih _ ?_⟩
      · rw [List.mem_eraseDups, List.mem_filter]
        rintro ⟨-, hne⟩
        simp at hne
      · exact (List.length_filter_le _ _).trans (Nat.le_of_succ_le_succ h)

private theorem nodup_insertBy {α : Type} {le : α → α → Bool} {a : α} {as : List α} (ha : a ∉ as)
    (has : as.Nodup) : (insertBy le a as).Nodup := by
  induction as with
  | nil => exact List.nodup_singleton a
  | cons b bs ih =>
    obtain ⟨hb, hbs⟩ := List.nodup_cons.1 has
    rw [insertBy]
    split
    · exact List.nodup_cons.2 ⟨ha, has⟩
    · refine List.nodup_cons.2 ⟨?_, ih (fun h => ha (List.mem_cons_of_mem _ h)) hbs⟩
      rw [mem_insertBy]
      rintro (rfl | h)
      · exact ha List.mem_cons_self
      · exact hb h

theorem nodup_sortBy {α : Type} {le : α → α → Bool} {as : List α} (h : as.Nodup) :
    (sortBy le as).Nodup := by
  induction as with
  | nil => exact List.nodup_nil
  | cons a as ih =>
    obtain ⟨ha, has⟩ := List.nodup_cons.1 h
    exact nodup_insertBy (fun hmem => ha (mem_sortBy.1 hmem)) (ih has)

/-- The elements that pass one of two tests that exclude each other. -/
private theorem filter_or_perm {α : Type} {p q : α → Bool} {as : List α}
    (h : ∀ a ∈ as, p a = true → q a = false) :
    (as.filter fun a => p a || q a).Perm (as.filter p ++ as.filter q) := by
  have hleft : (as.filter fun a => p a || q a).filter p = as.filter p := by
    rw [List.filter_filter]
    refine List.filter_congr fun a _ => ?_
    cases p a <;> rfl
  have hright : (as.filter fun a => p a || q a).filter (fun a => !p a) = as.filter q := by
    rw [List.filter_filter]
    refine List.filter_congr fun a ha => ?_
    cases hp : p a with
    | false => rfl
    | true => rw [h a ha hp]; rfl
  have hparts := List.filter_append_perm p (as.filter fun a => p a || q a)
  rw [hleft, hright] at hparts
  exact hparts.symm

/-- **The elements with one of some keys** are those with the first key, with the second key, and so
on, if no key is given twice. -/
theorem filter_keys_perm {α κ : Type} [BEq κ] [LawfulBEq κ] {key : α → Option κ} {as : List α}
    {keys : List κ} (h : keys.Nodup) :
    (as.filter fun a => keys.any fun k => key a == some k).Perm
      (keys.flatMap fun k => as.filter fun a => key a == some k) := by
  induction keys with
  | nil => simp
  | cons k keys ih =>
    obtain ⟨hk, hkeys⟩ := List.nodup_cons.1 h
    rw [List.flatMap_cons]
    refine (filter_or_perm ?_).trans ((ih hkeys).append_left _)
    intro a _ ha
    rw [List.any_eq_false]
    intro k' hk' ha'
    rw [beq_iff_eq] at ha ha'
    exact hk (Option.some.inj (ha.symm.trans ha') ▸ hk')

/-- The optional values for the parts of a list around an element. -/
private theorem mapM_append_cons_eq_some {α β : Type} {f : α → Option β} {as bs : List α} {a : α}
    {values : List β} : (as ++ a :: bs).mapM f = some values ↔ ∃ front b back,
      as.mapM f = some front ∧ f a = some b ∧ bs.mapM f = some back
      ∧ values = front ++ b :: back := by
  rw [List.mapM_append, List.mapM_cons]
  simp only [Option.bind_eq_bind, Option.bind_eq_some_iff, Option.pure_def, Option.some.injEq]
  constructor
  · rintro ⟨front, hfront, _, ⟨b, hb, back, hback, rfl⟩, rfl⟩
    exact ⟨front, b, back, hfront, hb, hback, rfl⟩
  · rintro ⟨front, b, back, hfront, hb, hback, rfl⟩
    exact ⟨front, hfront, _, ⟨b, hb, back, hback, rfl⟩, rfl⟩

namespace MemoryCube

/-! ### Ancestors -/

variable (c : MemoryCube)

/-- Whether every member below a root level has a parent. -/
def Rooted : Prop := ∀ m ∈ c.members, 0 < m.depth → m.parent ≠ none

variable {c} {d : CubeDescription}

theorem Reaches.trans {m a b : Member} (h : c.Reaches m a) (h' : c.Reaches a b) :
    c.Reaches m b := by
  induction h with
  | self m => exact h'
  | parent hname hp _ ih => exact .parent hname hp (ih h')

section

variable (hn : (c.members.map fun m => m.label.uniqueName).Nodup) (hc : c.Built d)

include hn hc

/-- Of two members above another one, the shallower one is above the deeper one. -/
theorem Reaches.of_depth_le {m a b : Member} (ha : c.Reaches m a) (hb : c.Reaches m b)
    (hm : m ∈ c.members) (hle : b.depth ≤ a.depth) : c.Reaches a b := by
  induction ha with
  | self m => exact hb
  | @parent m p a name hname hp hpa ih =>
    have hpmem := (mem_of_member? hp).1
    obtain ⟨hdepth, -⟩ := depth_of_parent hn hc hm hname hp
    obtain ⟨-, hpdepth⟩ := hpa.depth_le hn hc hpmem
    cases hb with
    -- the member itself is deeper than everything above its parent
    | self => omega
    | parent hname' hp' hpb =>
      obtain rfl := Option.some.inj (hname.symm.trans hname')
      obtain rfl := Option.some.inj (hp.symm.trans hp')
      exact ih hpb hpmem hle

/-- **A member has an ancestor at every depth** down to its own, if only members at the root have no
parent. -/
theorem exists_reaches (hroots : c.Rooted) {m : Member} (hm : m ∈ c.members) {depth : Nat}
    (hle : depth ≤ m.depth) : ∃ a, c.Reaches m a ∧ a.depth = depth := by
  obtain ⟨n, hdepth⟩ := Nat.exists_eq_add_of_le hle
  induction n generalizing m with
  | zero => exact ⟨m, .self m, hdepth⟩
  | succ n ih =>
    obtain ⟨name, hname⟩ := Option.ne_none_iff_exists'.1 (hroots m hm (by omega))
    obtain ⟨-, p, hp, hpname, hpdepth⟩ := (hc.members m hm).parent name hname
    obtain ⟨a, ha, hadepth⟩ := ih hp (by omega) (by omega)
    exact ⟨a, .parent hname (hpname ▸ member?_uniqueName hn hp) ha, hadepth⟩

theorem ancestorAt?_isSome_iff (hroots : c.Rooted) {m : Member} (hm : m ∈ c.members)
    {depth : Nat} : (c.ancestorAt? m depth).isSome = true ↔ depth ≤ m.depth := by
  rw [Option.isSome_iff_exists]
  simp only [ancestorAt?_eq_some_iff hn hc hm]
  constructor
  · rintro ⟨a, hreaches, rfl⟩
    exact (hreaches.depth_le hn hc hm).2
  · exact exists_reaches hn hc hroots hm

/-- **Going up in one or in two steps** leads to the same ancestor. -/
theorem ancestorAt?_ancestorAt? {m a : Member} {deep shallow : Nat} (hm : m ∈ c.members)
    (ha : c.ancestorAt? m deep = some a) (hle : shallow ≤ deep) :
    c.ancestorAt? a shallow = c.ancestorAt? m shallow := by
  obtain ⟨hreaches, hdepth⟩ := (ancestorAt?_eq_some_iff hn hc hm).1 ha
  have hamem := (hreaches.depth_le hn hc hm).1
  refine Option.ext fun b => ?_
  rw [ancestorAt?_eq_some_iff hn hc hm, ancestorAt?_eq_some_iff hn hc hamem]
  refine and_congr_left fun hb => ⟨hreaches.trans, fun hmb => ?_⟩
  exact hreaches.of_depth_le hn hc hmb hm (by omega)

end

/-! ### Keys -/

variable (c)

/-- The canonical name of the ancestor, at a depth, of the member with a canonical name. -/
def ancestorName? (depth : Nat) (name : String) : Option String :=
  (c.members.find? fun m => canonicalName m.label.uniqueName == name).bind fun m =>
    (c.ancestorAt? m depth).map fun ancestor => canonicalName ancestor.label.uniqueName

/-- The key of a group with the ancestor at a depth in place of the member at a place. -/
def coarserKey? (place depth : Nat) (key : List String) : Option (List String) :=
  key[place]?.bind fun name => (c.ancestorName? depth name).map (key.set place)

/-- The groups whose keys have a member below the one that a key has at a place. -/
def groupsBelow (place depth : Nat) (key : List String) (groups : List (List String × List Fact)) :
    List (List String × List Fact) :=
  groups.filter fun (k, _) => c.coarserKey? place depth k == some key

/-- Whether an observation has a member at or below a level. -/
def reachesLevel (level : Level) (fact : Fact) : Bool :=
  (c.factMembers fact).any fun m => m.hierarchy == level.hierarchy && decide (level.depth ≤ m.depth)

variable {c} {before after : List Level} {fact : Fact}

/-- The key of an observation, with the name at one place apart. -/
theorem groupKey?_append_cons {level : Level} {key : List String} :
    c.groupKey? (before ++ level :: after) fact = some key ↔ ∃ front a back,
      c.groupKey? before fact = some front ∧ c.factAncestor? fact level = some a
      ∧ c.groupKey? after fact = some back
      ∧ key = front ++ canonicalName a.label.uniqueName :: back := by
  rw [groupKey?, mapM_append_cons_eq_some]
  constructor
  · rintro ⟨front, name, back, hfront, hname, hback, rfl⟩
    obtain ⟨a, ha, rfl⟩ := Option.map_eq_some_iff.1 hname
    exact ⟨front, a, back, hfront, ha, hback, rfl⟩
  · rintro ⟨front, a, back, hfront, ha, hback, rfl⟩
    exact ⟨front, _, back, hfront, Option.map_eq_some_iff.2 ⟨a, ha, rfl⟩, hback, rfl⟩

theorem length_of_groupKey? {key : List String} (h : c.groupKey? before fact = some key) :
    key.length = before.length := (c.groupKey?_eq_some.1 h).length_eq.symm

section

variable (hn : (c.members.map fun m => m.label.uniqueName).Nodup) (hc : c.Built d)
  (hcanonical : ∀ m ∈ c.members, ∀ n ∈ c.members,
    canonicalName m.label.uniqueName = canonicalName n.label.uniqueName →
      m.label.uniqueName = n.label.uniqueName)
  (hroots : c.Rooted)

omit hcanonical hroots in
include hn hcanonical in
/-- A canonical name stands for one member. -/
theorem ancestorName?_canonicalName {a : Member} (ha : a ∈ c.members) (depth : Nat) :
    c.ancestorName? depth (canonicalName a.label.uniqueName)
      = (c.ancestorAt? a depth).map fun b => canonicalName b.label.uniqueName := by
  have hkeys : ∀ m ∈ c.members, ∀ n ∈ c.members,
      canonicalName m.label.uniqueName = canonicalName n.label.uniqueName → m = n :=
    fun m hm n hn' hname => eq_of_uniqueName hn hm hn' (hcanonical m hm n hn' hname)
  have hfind := (find?_key_eq_some_iff hkeys).2 ⟨ha, Eq.refl (canonicalName a.label.uniqueName)⟩
  rw [ancestorName?, hfind, Option.bind_some]

/-! ### Groups in both plans -/

variable {coarse fine : Level} (hhierarchy : coarse.hierarchy = fine.hierarchy)
  (hdepth : coarse.depth < fine.depth)

include hn hc hhierarchy hdepth in
/-- **The ancestor of an observation at the shallower level** is that of its ancestor at the deeper
one. -/
theorem factAncestor?_coarser (hroots : c.Rooted) {a : Member}
    (ha : c.factAncestor? fact fine = some a) : a ∈ c.members ∧ ∃ b,
      c.ancestorAt? a coarse.depth = some b ∧ c.factAncestor? fact coarse = some b := by
  obtain ⟨m, hm, hma⟩ := Option.bind_eq_some_iff.1 ha
  have hmem := mem_of_mem_factMembers (List.mem_of_find?_eq_some hm)
  obtain ⟨hreaches, hadepth⟩ := (ancestorAt?_eq_some_iff hn hc hmem).1 hma
  have hamem := (hreaches.depth_le hn hc hmem).1
  obtain ⟨b, hb⟩ := Option.isSome_iff_exists.1
    ((ancestorAt?_isSome_iff hn hc hroots hamem).2 (hadepth ▸ hdepth.le))
  refine ⟨hamem, b, hb, Option.bind_eq_some_iff.2 ⟨m, ?_, ?_⟩⟩
  · rwa [hhierarchy]
  · rwa [← ancestorAt?_ancestorAt? hn hc hmem hma hdepth.le]

include hn hc hhierarchy hdepth hcanonical in
/-- **The key of an observation at the shallower level** has the ancestor in place of the member at
the deeper one. -/
theorem groupKey?_coarser (hroots : c.Rooted) {key : List String}
    (h : c.groupKey? (before ++ fine :: after) fact = some key) : ∃ key',
      c.groupKey? (before ++ coarse :: after) fact = some key'
      ∧ c.coarserKey? before.length coarse.depth key = some key' := by
  obtain ⟨front, a, back, hfront, ha, hback, rfl⟩ := groupKey?_append_cons.1 h
  obtain ⟨hamem, b, hab, hb⟩ := factAncestor?_coarser hn hc hhierarchy hdepth hroots ha
  refine ⟨_, groupKey?_append_cons.2 ⟨front, b, back, hfront, hb, hback, rfl⟩, ?_⟩
  rw [coarserKey?, ← length_of_groupKey? hfront, List.getElem?_append_right (Nat.le_refl _),
    Nat.sub_self, List.getElem?_cons_zero, Option.bind_some,
    ancestorName?_canonicalName hn hcanonical hamem, hab, Option.map_some, Option.map_some,
    List.set_append_right _ _ (Nat.le_refl _), Nat.sub_self, List.set_cons_zero]

include hn hc hhierarchy in
/-- **An observation of a group at the shallower level** is in no group at the deeper one if and
only if it has no member at or below that level. -/
theorem groupKey?_finer_eq_none_iff (hroots : c.Rooted)
    (hone : ∀ m ∈ c.factMembers fact, ∀ n ∈ c.factMembers fact, m.hierarchy = n.hierarchy → m = n)
    {key : List String} (h : c.groupKey? (before ++ coarse :: after) fact = some key) :
    c.groupKey? (before ++ fine :: after) fact = none ↔ c.reachesLevel fine fact = false := by
  obtain ⟨front, b, back, hfront, hb, hback, rfl⟩ := groupKey?_append_cons.1 h
  obtain ⟨m, hm, -⟩ := Option.bind_eq_some_iff.1 hb
  rw [hhierarchy] at hm
  obtain ⟨hmem, hmhierarchy⟩ := mem_of_find?_key hm
  -- the other places of the key are the same, so it is the ancestor that decides
  have hsome : (c.groupKey? (before ++ fine :: after) fact).isSome = true ↔
      fine.depth ≤ m.depth := by
    rw [← ancestorAt?_isSome_iff hn hc hroots (mem_of_mem_factMembers hmem),
      Option.isSome_iff_exists, Option.isSome_iff_exists]
    have hancestor : ∀ a, c.factAncestor? fact fine = some a ↔
        c.ancestorAt? m fine.depth = some a := by
      intro a
      rw [factAncestor?, hm, Option.bind_some]
    constructor
    · rintro ⟨key, hkey⟩
      obtain ⟨_, a, _, _, ha, -⟩ := groupKey?_append_cons.1 hkey
      exact ⟨a, (hancestor a).1 ha⟩
    · rintro ⟨a, ha⟩
      exact ⟨_, groupKey?_append_cons.2 ⟨front, a, back, hfront, (hancestor a).2 ha, hback, rfl⟩⟩
  have hreaches : c.reachesLevel fine fact = true ↔ fine.depth ≤ m.depth := by
    rw [reachesLevel, List.any_eq_true]
    constructor
    · rintro ⟨n, hnmem, hn⟩
      rw [Bool.and_eq_true, beq_iff_eq, decide_eq_true_iff] at hn
      obtain rfl := hone n hnmem m hmem (hn.1.trans hmhierarchy.symm)
      exact hn.2
    · intro hle
      refine ⟨m, hmem, ?_⟩
      rw [Bool.and_eq_true, beq_iff_eq, decide_eq_true_iff]
      exact ⟨hmhierarchy, hle⟩
  rw [← Option.not_isSome_iff_eq_none, hsome, ← hreaches, Bool.not_eq_true]

end

/-! ### Groups -/

variable (c) in
theorem map_fst_groups (dice : List (List Member)) (levels : List Level) :
    (c.groups dice levels).map Prod.fst = groupKeys (c.keyedFacts dice levels) := by
  rw [groups, List.map_map]
  exact List.map_id _

variable (c) in
/-- **Different groups have different keys.** -/
theorem nodup_groups (dice : List (List Member)) (levels : List Level) :
    ((c.groups dice levels).map Prod.fst).Nodup := by
  rw [map_fst_groups]
  exact nodup_sortBy (nodup_eraseDups _ _ (Nat.le_refl _))

theorem mem_cellFacts {dice : List (List Member)} {levels : List Level} {key : List String} :
    fact ∈ c.cellFacts dice levels key ↔
      (fact ∈ c.facts ∧ c.isDiced dice fact = true) ∧ c.groupKey? levels fact = some key := by
  rw [cellFacts, List.mem_filter, List.mem_filter, beq_iff_eq]

variable (c) in
/-- How the groups of two plans are related that roll up to a shallower and to a deeper level at
one place. -/
structure Coheres (place : Nat) (coarse fine : Level) (shallow deep :
    List (List String × List Fact)) : Prop where
  /-- Groups are told apart by their keys. -/
  keys : (shallow.map Prod.fst).Nodup ∧ (deep.map Prod.fst).Nodup
  /-- A deeper group is in the shallower one with the ancestor in place of the member. -/
  above : ∀ key facts, (key, facts) ∈ deep → ∃ key' facts',
    c.coarserKey? place coarse.depth key = some key' ∧ (key', facts') ∈ shallow
      ∧ facts.Sublist facts'
  /-- A shallower group is made of the deeper groups below it and of the observations without a
  member at or below the deeper level. -/
  below : ∀ key facts, (key, facts) ∈ shallow →
    facts.Perm ((c.groupsBelow place coarse.depth key deep).flatMap Prod.snd
      ++ facts.filter fun fact => !c.reachesLevel fine fact)

section

variable (hn : (c.members.map fun m => m.label.uniqueName).Nodup) (hc : c.Built d)
  (hcanonical : ∀ m ∈ c.members, ∀ n ∈ c.members,
    canonicalName m.label.uniqueName = canonicalName n.label.uniqueName →
      m.label.uniqueName = n.label.uniqueName)
  (hroots : c.Rooted)
  (hone : ∀ fact ∈ c.facts, ∀ m ∈ c.factMembers fact, ∀ n ∈ c.factMembers fact,
    m.hierarchy = n.hierarchy → m = n)
  {coarse fine : Level} (hhierarchy : coarse.hierarchy = fine.hierarchy)
  (hdepth : coarse.depth < fine.depth)

include hn hc hcanonical hroots hone hhierarchy hdepth

/-- The observations of a shallower group with a member at or below the deeper level are those of
the deeper groups below it. -/
private theorem reaches_iff {dice : List (List Member)} {key : List String}
    (hfact : fact ∈ c.facts ∧ c.isDiced dice fact = true) :
    c.groupKey? (before ++ coarse :: after) fact = some key ∧ c.reachesLevel fine fact = true ↔
      ∃ k ∈ (c.groupsBelow before.length coarse.depth key
          (c.groups dice (before ++ fine :: after))).map Prod.fst,
        c.groupKey? (before ++ fine :: after) fact = some k := by
  constructor
  · rintro ⟨hkey, hreaches⟩
    have hnone : c.groupKey? (before ++ fine :: after) fact = none
        ↔ c.reachesLevel fine fact = false :=
      groupKey?_finer_eq_none_iff hn hc hhierarchy hroots (hone fact hfact.1) hkey
    obtain ⟨k, hk⟩ := Option.ne_none_iff_exists'.1 fun h =>
      Bool.false_ne_true ((hnone.1 h).symm.trans hreaches)
    obtain ⟨key', hkey', hcoarser⟩ :=
      groupKey?_coarser hn hc hcanonical hhierarchy hdepth hroots hk
    obtain rfl := Option.some.inj (hkey.symm.trans hkey')
    have hmem := mem_cellFacts.2 ⟨hfact, hk⟩
    refine ⟨k, List.mem_map.2 ⟨(k, _), List.mem_filter.2 ⟨mem_groups.2 ⟨rfl, ?_⟩, ?_⟩, rfl⟩, hk⟩
    · exact List.ne_nil_of_mem hmem
    · exact beq_iff_eq.2 hcoarser
  · rintro ⟨k, hk, hfine⟩
    obtain ⟨⟨_, facts⟩, hgroup, rfl⟩ := List.mem_map.1 hk
    have hcoarser := eq_of_beq (List.mem_filter.1 hgroup).2
    obtain ⟨key', hkey', hcoarser'⟩ :=
      groupKey?_coarser hn hc hcanonical hhierarchy hdepth hroots hfine
    obtain rfl := Option.some.inj (hcoarser.symm.trans hcoarser')
    refine ⟨hkey', ?_⟩
    cases hreaches : c.reachesLevel fine fact with
    | true => rfl
    | false =>
      have hnone := (groupKey?_finer_eq_none_iff hn hc hhierarchy hroots (hone fact hfact.1)
        hkey').2 hreaches
      rw [hnone] at hfine
      cases hfine

/-- **The groups of two plans** that differ in the level at one place. -/
theorem coheres_groups (dice : List (List Member)) (before after : List Level) :
    c.Coheres before.length coarse fine (c.groups dice (before ++ coarse :: after))
      (c.groups dice (before ++ fine :: after)) := by
  refine ⟨⟨c.nodup_groups _ _, c.nodup_groups _ _⟩, ?_, ?_⟩
  · intro key facts hgroup
    obtain ⟨rfl, hne⟩ := mem_groups.1 hgroup
    obtain ⟨fact, hfact⟩ := List.exists_mem_of_ne_nil _ hne
    obtain ⟨hkept, hkey⟩ := mem_cellFacts.1 hfact
    obtain ⟨key', hkey', hcoarser⟩ :=
      groupKey?_coarser hn hc hcanonical hhierarchy hdepth hroots hkey
    refine ⟨key', _, hcoarser, mem_groups.2 ⟨rfl, ?_⟩, ?_⟩
    · exact List.ne_nil_of_mem (mem_cellFacts.2 ⟨hkept, hkey'⟩)
    · refine List.monotone_filter_right _ fun other hother => ?_
      -- the coarser key is a function of the finer one, so it is the same for the whole group
      obtain ⟨key'', hkey'', hcoarser'⟩ :=
        groupKey?_coarser hn hc hcanonical hhierarchy hdepth hroots (eq_of_beq hother)
      obtain rfl := Option.some.inj (hcoarser.symm.trans hcoarser')
      exact beq_iff_eq.2 hkey''
  · intro key facts hgroup
    obtain ⟨rfl, -⟩ := mem_groups.1 hgroup
    refine (List.filter_append_perm (c.reachesLevel fine) _).symm.trans ?_
    refine List.Perm.append_right _ ?_
    set deep := c.groups dice (before ++ fine :: after) with hdeep
    have hfilter : (c.cellFacts dice (before ++ coarse :: after) key).filter (c.reachesLevel fine)
        = (c.facts.filter (c.isDiced dice)).filter fun fact =>
          ((c.groupsBelow before.length coarse.depth key deep).map Prod.fst).any fun k =>
            c.groupKey? (before ++ fine :: after) fact == some k := by
      rw [cellFacts, List.filter_filter]
      refine List.filter_congr fun fact hfact => ?_
      rw [Bool.eq_iff_iff, Bool.and_eq_true, beq_iff_eq, and_comm,
        reaches_iff hn hc hcanonical hroots hone hhierarchy hdepth (List.mem_filter.1 hfact),
        List.any_eq_true]
      simp only [beq_iff_eq, hdeep]
    have hnodup : ((c.groupsBelow before.length coarse.depth key deep).map Prod.fst).Nodup :=
      (c.nodup_groups _ _).sublist (List.filter_sublist.map _)
    rw [hfilter]
    refine (filter_keys_perm hnodup).trans (List.Perm.of_eq ?_)
    rw [List.flatMap_map]
    refine List.flatMap_congr fun group hmem => ?_
    exact (mem_groups.1 (List.mem_filter.1 hmem).1).1.symm

end

end MemoryCube

/-! ### Counts -/

namespace MeasureScope

/-- The number of values that observations have for a measure. -/
def count (facts : List Fact) (measure : Member) : Nat := (valuesOf facts measure).length

/-- The value of a measure that counts the given number of values. -/
def countValue (n : Nat) : Option Float := if n = 0 then none else some (Float.ofNat n)

/-- **The value of a counting measure** is the number of values. -/
theorem value_count (scope : MeasureScope) {facts : List Fact} {a : Member}
    (hstored : a.formula? = none) (hcount : a.aggregator? = some .count) :
    scope.value facts a = .ok (countValue (count facts a)) := by
  rw [value, valueTo, hstored]
  dsimp only
  rw [hcount, Option.getD_some]
  exact congrArg Except.ok (if_congr List.isEmpty_iff_length_eq_zero rfl rfl)

theorem count_perm {facts facts' : List Fact} (h : facts.Perm facts') (a : Member) :
    count facts a = count facts' a := (h.filterMap _).length_eq

theorem count_append (facts facts' : List Fact) (a : Member) :
    count (facts ++ facts') a = count facts a + count facts' a := by
  rw [count, valuesOf, List.filterMap_append, List.length_append]
  rfl

/-- The count over groups is the sum of their counts. -/
theorem count_flatMap (groups : List (List String × List Fact)) (a : Member) :
    count (groups.flatMap Prod.snd) a = (groups.map fun group => count group.2 a).sum := by
  induction groups with
  | nil => rfl
  | cons group groups ih => rw [List.flatMap_cons, count_append, ih, List.map_cons, List.sum_cons]

end MeasureScope

/-! ### Results of both plans -/

namespace MemoryCube

variable {c : MemoryCube} {d : CubeDescription}

/-- **Groups at a shallower level are made of those at a deeper one.**  If two plans differ only in
one roll-up level, which is the shallower one of two levels of a hierarchy in one of them, their
results have a row for each group, the groups cohere, and a count at the shallower level is the sum
of the counts below it and of the count over the observations without a member at or below the
deeper level. -/
theorem rollUp_coherent (hbuild : d.build = .ok c)
    (hn : (c.members.map fun m => m.label.uniqueName).Nodup)
    (hcanonical : ∀ m ∈ c.members, ∀ n ∈ c.members,
      canonicalName m.label.uniqueName = canonicalName n.label.uniqueName →
        m.label.uniqueName = n.label.uniqueName)
    (hroots : c.Rooted)
    (hone : ∀ fact ∈ c.facts, ∀ m ∈ c.factMembers fact, ∀ n ∈ c.factMembers fact,
      m.hierarchy = n.hierarchy → m = n)
    {coarse fine : Level} (hhierarchy : coarse.hierarchy = fine.hierarchy)
    (hdepth : coarse.depth < fine.depth)
    {coarsePlan finePlan : Plan} {q : PlanParameters} {before after : List Level}
    (hcoarse : PlanParameters.ofPlan coarsePlan
      = .ok { q with levels := before ++ coarse :: after })
    (hfine : PlanParameters.ofPlan finePlan = .ok { q with levels := before ++ fine :: after })
    {dice : List (List Member)}
    (hdice : (q.dice.mapM fun tuple => tuple.mapM c.resolveMember) = .ok dice) :
    (∀ result, c.execute coarsePlan = .ok result →
        List.Forall₂ (fun (group : List String × List Fact) row =>
          c.groupRow q.measures group.1 group.2 = .ok row)
            (c.groups dice (before ++ coarse :: after)) result.rows)
      ∧ (∀ result, c.execute finePlan = .ok result →
        List.Forall₂ (fun (group : List String × List Fact) row =>
          c.groupRow q.measures group.1 group.2 = .ok row)
            (c.groups dice (before ++ fine :: after)) result.rows)
      ∧ c.Coheres before.length coarse fine (c.groups dice (before ++ coarse :: after))
        (c.groups dice (before ++ fine :: after))
      ∧ ∀ scope : MeasureScope, ∀ a : Member, a.formula? = none → a.aggregator? = some .count →
        (∀ group ∈ c.groups dice (before ++ fine :: after), scope.value group.2 a
          = .ok (MeasureScope.countValue (MeasureScope.count group.2 a)))
        ∧ ∀ key facts, (key, facts) ∈ c.groups dice (before ++ coarse :: after) →
          scope.value facts a = .ok (MeasureScope.countValue
            (((c.groupsBelow before.length coarse.depth key
                (c.groups dice (before ++ fine :: after))).map fun group =>
                  MeasureScope.count group.2 a).sum
              + MeasureScope.count (facts.filter fun fact => !c.reachesLevel fine fact) a)) := by
  have hcoheres := coheres_groups hn (CubeDescription.built hbuild) hcanonical hroots hone
    hhierarchy hdepth dice before after
  refine ⟨?_, ?_, hcoheres, ?_⟩
  · exact fun result hresult => ((execute_eq_ok hcoarse hdice).1 hresult).2
  · exact fun result hresult => ((execute_eq_ok hfine hdice).1 hresult).2
  · intro scope a hstored hcount
    refine ⟨fun group _ => scope.value_count hstored hcount, fun key facts hgroup => ?_⟩
    rw [scope.value_count hstored hcount, MeasureScope.count_perm (hcoheres.below key facts hgroup),
      MeasureScope.count_append, MeasureScope.count_flatMap]

/-- Visits by place and year, one of them known by its country only. -/
def visits : CubeDescription where
  name := "Visits"
  dimensions := [⟨"Geo", .other, ["Country", "City"]⟩, ⟨"Time", .time, ["Year"]⟩]
  members := [⟨"[Geo].[Country]", "AT", none⟩, ⟨"[Geo].[City]", "Graz", some "[Geo].[AT]"⟩,
    ⟨"[Geo].[City]", "Linz", some "[Geo].[AT]"⟩, ⟨"[Time].[Year]", "2020", none⟩]
  measures := [.stored "Visits" .count]
  facts := [⟨["[Geo].[AT].[Graz]", "[Time].[2020]"], [("Visits", 1)]⟩,
    ⟨["[Geo].[AT].[Linz]", "[Time].[2020]"], [("Visits", 1)]⟩,
    ⟨["[Geo].[AT].[Linz]", "[Time].[2020]"], [("Visits", 1)]⟩,
    ⟨["[Geo].[AT]", "[Time].[2020]"], [("Visits", 1)]⟩]

set_option maxRecDepth 100000 in
theorem isOk_visits : visits.build.isOk = true := by decide +kernel

/-- The cube of the visits. -/
def visitsCube : MemoryCube := visits.build.get isOk_visits

theorem build_visits : visits.build = .ok visitsCube := Outcome.eq_ok_get isOk_visits

/-- A level of the visits. -/
def visitsLevel (dimension name : String) (depth : Nat) : Level :=
  DimensionDescription.toLevel "Visits" ⟨dimension, .other, []⟩ name depth

/-- The visits by a level of places and by years. -/
def visitsPlan (level : Level) : Plan where
  cube := rowSetOf [visitsCube.cube]
  operators := [
    .rollup (rowSetOf visitsCube.hierarchies) (rowSetOf [level, visitsLevel "Time" "Year" 0]),
    .project (measureRowSet visitsCube.measures)]

/-- What both plans ask for. -/
def visitsParameters : PlanParameters where
  measures := visitsCube.measures

deriving instance DecidableEq for PlanParameters

set_option maxRecDepth 100000 in
/-- The four visits of Austria are one of Graz, two of Linz, and one of no city. -/
theorem rollUp_coherent_visits :
    (visitsCube.groups [] [visitsLevel "Geo" "City" 1, visitsLevel "Time" "Year" 0]).map Prod.fst
        = [["Geo.AT.Graz", "Time.2020"], ["Geo.AT.Linz", "Time.2020"]]
      ∧ ∀ a ∈ visitsCube.measures, ∀ scope : MeasureScope, ∃ facts,
        (["Geo.AT", "Time.2020"], facts) ∈ visitsCube.groups []
          [visitsLevel "Geo" "Country" 0, visitsLevel "Time" "Year" 0]
        ∧ scope.value facts a = .ok (MeasureScope.countValue (1 + 2 + 1)) := by
  have hn : (visitsCube.members.map fun m => m.label.uniqueName).Nodup := by decide +kernel
  have hcanonical : ∀ m ∈ visitsCube.members, ∀ n ∈ visitsCube.members,
      canonicalName m.label.uniqueName = canonicalName n.label.uniqueName →
        m.label.uniqueName = n.label.uniqueName := by
    decide +kernel
  have hroots : visitsCube.Rooted := by
    unfold Rooted
    decide +kernel
  have hone : ∀ fact ∈ visitsCube.facts, ∀ m ∈ visitsCube.factMembers fact,
      ∀ n ∈ visitsCube.factMembers fact, m.hierarchy = n.hierarchy → m = n := by
    decide +kernel
  have hhierarchy : (visitsLevel "Geo" "Country" 0).hierarchy
      = (visitsLevel "Geo" "City" 1).hierarchy := rfl
  have hdepth : (visitsLevel "Geo" "Country" 0).depth < (visitsLevel "Geo" "City" 1).depth :=
    Nat.zero_lt_one
  have hcoarse : PlanParameters.ofPlan (visitsPlan (visitsLevel "Geo" "Country" 0))
      = .ok { visitsParameters with
        levels := [] ++ visitsLevel "Geo" "Country" 0 :: [visitsLevel "Time" "Year" 0] } := by
    decide +kernel
  have hfine : PlanParameters.ofPlan (visitsPlan (visitsLevel "Geo" "City" 1))
      = .ok { visitsParameters with
        levels := [] ++ visitsLevel "Geo" "City" 1 :: [visitsLevel "Time" "Year" 0] } := by
    decide +kernel
  have hdice : (visitsParameters.dice.mapM fun tuple => tuple.mapM visitsCube.resolveMember)
      = .ok [] := rfl
  obtain ⟨-, -, -, hcounts⟩ := rollUp_coherent build_visits hn hcanonical hroots hone hhierarchy
    hdepth hcoarse hfine hdice
  refine ⟨by decide +kernel, fun a ha scope => ?_⟩
  obtain ⟨⟨hstored, hcount⟩, hbelow, hrest, hne⟩ :
      (a.formula? = none ∧ a.aggregator? = some .count)
      ∧ ((visitsCube.groupsBelow 0 0 ["Geo.AT", "Time.2020"] (visitsCube.groups []
          [visitsLevel "Geo" "City" 1, visitsLevel "Time" "Year" 0])).map fun group =>
            MeasureScope.count group.2 a).sum = 1 + 2
      ∧ MeasureScope.count ((visitsCube.cellFacts [] [visitsLevel "Geo" "Country" 0,
          visitsLevel "Time" "Year" 0] ["Geo.AT", "Time.2020"]).filter fun fact =>
            !visitsCube.reachesLevel (visitsLevel "Geo" "City" 1) fact) a = 1
      ∧ (visitsCube.cellFacts [] [visitsLevel "Geo" "Country" 0,
          visitsLevel "Time" "Year" 0] ["Geo.AT", "Time.2020"]).length ≠ 0 := by
    revert a
    decide +kernel
  have hgroup := mem_groups.2 ⟨rfl, List.ne_nil_of_length_pos (Nat.pos_of_ne_zero hne)⟩
  refine ⟨_, hgroup, ?_⟩
  have hvalue := (hcounts scope a hstored hcount).2 _ _ hgroup
  rwa [List.length_nil, show (visitsLevel "Geo" "Country" 0).depth = 0 from rfl, List.nil_append,
    hbelow, hrest] at hvalue

end MemoryCube

end Datacube
