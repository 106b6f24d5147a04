import Datacube.Proofs.Searches
import Datacube.Proofs.SharedRows

/-!
# Members and their parents

A cube is built from descriptions of members, one after the other.  What is described is accepted if
its level exists and its parent, if there is one, is the name of a member one level above.  Nothing
keeps a member below the root from having no parent, or two members from having the same unique
name, in which case the later one takes over the name.

## Main definitions

* `MemberDescription.Gives` — whether a member is what a description gives.
* `Parented` — whether parents are one level above, among the members that came before.

## Main results

* `CubeDescription.gives_and_parented` — **the members of a cube** are the described ones, and they
  are parented.
* `MemoryCube.uniqueName_eq_iff` — **when two members have the same unique name**.
* `MemoryCube.member?_uniqueName_iff` — members are found if and only if their unique names differ.
* `MemoryCube.members_parented` — all of this together.
* `MemoryCube.not_forest` — a cube with an orphan and with a name that is used twice.
-/

namespace Datacube

/-- Whether a member is what a description gives. -/
structure MemberDescription.Gives (m : MemberDescription) (a : Member) : Prop where
  level : a.level = m.level
  parent : a.parent = m.parent
  label : a.label = .ofName (m.parent.getD a.dimension ++ "." ++ quoteSegment m.name) m.name

/-- Whether the parent of every member, the newest one first, names an older member one level above:
the newest one of those that have this name. -/
def Parented : List Member → Prop
  | [] => True
  | a :: older => (∀ name ∈ a.parent, ∃ p, lastNamed? older.reverse name = some p
      ∧ p.depth + 1 = a.depth) ∧ Parented older

theorem Parented.of_append {newer older : List Member} (h : Parented (newer ++ older)) :
    Parented older := by
  induction newer with
  | nil => exact h
  | cons a newer ih => exact ih h.2

/-! ### What descriptions give -/

namespace Populace

/-- What is known of a new member and of its parent, if it is accepted. -/
theorem parent_of_add {q q' : Populace} {m : MemberDescription} (h : q.add m = .ok q') :
    ∃ l, levelNamed? m.level q.levels = some l
      ∧ q' = ⟨countMember m.level q.levels, memberOf l m :: q.newest⟩
      ∧ ∀ name ∈ m.parent, ∃ p, q.member? name = some p ∧ p.depth + 1 = l.depth := by
  obtain ⟨l, hl, rfl⟩ := add_eq_ok h
  refine ⟨l, hl, rfl, ?_⟩
  intro name hname
  have hfound : (q.levels.find? fun level => level.label.uniqueName == m.level) = some l := hl
  rw [add, hfound, Option.mem_def.1 hname] at h
  dsimp only at h
  split at h
  · rename_i hisParent
    rw [isParent] at hisParent
    split at hisParent
    · rename_i p hp
      exact ⟨p, hp, eq_of_beq hisParent⟩
    · cases hisParent
  · cases h

/-- **One more member** is what its description gives, and its parent is older. -/
private theorem gives_add {ms : List MemberDescription} {q q' : Populace} {m : MemberDescription}
    (hgives : List.Forall₂ MemberDescription.Gives ms q.newest.reverse)
    (hparented : Parented q.newest) (h : q.add m = .ok q') :
    List.Forall₂ MemberDescription.Gives (ms ++ [m]) q'.newest.reverse ∧ Parented q'.newest := by
  obtain ⟨l, hl, rfl, hparent⟩ := parent_of_add h
  have hlevel : l.label.uniqueName = m.level := (mem_of_levelNamed? hl).2
  constructor
  · rw [List.reverse_cons]
    exact List.rel_append hgives (.cons ⟨hlevel, rfl, rfl⟩ .nil)
  · refine ⟨fun name hname => ?_, hparented⟩
    obtain ⟨p, hp, hdepth⟩ := hparent name hname
    refine ⟨p, ?_, hdepth⟩
    rw [lastNamed?, List.reverse_reverse]
    exact hp

end Populace

/-- **The members of a cube** are those that are described, in the same order, and their parents
come before them. -/
theorem CubeDescription.gives_and_parented {d : CubeDescription} {c : MemoryCube}
    (h : d.build = .ok c) :
    List.Forall₂ MemberDescription.Gives d.members c.members ∧ Parented c.members.reverse := by
  obtain ⟨q, measures, facts, hq, -, -, rfl⟩ := exists_of_build h
  have hmade : List.Forall₂ MemberDescription.Gives d.members q.newest.reverse
      ∧ Parented q.newest := by
    refine Outcome.assurance.foldlM (fun ms q => List.Forall₂ MemberDescription.Gives ms
        (Populace.newest q).reverse ∧ Parented q.newest)
      (fun _ _ _ _ hq _ h => Populace.gives_add hq.1 hq.2 h) ?_ q hq
    exact ⟨.nil, trivial⟩
  refine ⟨hmade.1, ?_⟩
  dsimp only
  rw [List.reverse_reverse]
  exact hmade.2

namespace MemoryCube

variable {c : MemoryCube} {d : CubeDescription}

/-! ### Parents -/

/-- **The parent of a member** was, when the member was described, the name of a member one level
above. -/
theorem parent_of_split (h : Parented c.members.reverse) {before after : List Member} {a : Member}
    (hsplit : c.members = before ++ a :: after) {name : String} (hname : name ∈ a.parent) :
    ∃ p, lastNamed? before name = some p ∧ p.depth + 1 = a.depth := by
  rw [hsplit, List.reverse_append, List.reverse_cons, List.append_assoc] at h
  have holder : Parented (a :: before.reverse) := h.of_append
  have hparent := holder.1 name hname
  rwa [List.reverse_reverse] at hparent

/-! ### Unique names -/

/-- What comes before the own name of a member in its unique name is a unique name as well. -/
private theorem exists_segments_prefix (hb : c.Built d) (hc : c.Filled d) {a : Member}
    (ha : a ∈ c.members) :
    ∃ segments, segments ≠ [] ∧ joinSegments segments = a.parent.getD a.dimension := by
  cases hparent : a.parent with
  | none =>
    obtain ⟨dim, l, hdescribed⟩ := hc.exists_described ha
    exact ⟨[dim.name], List.cons_ne_nil _ _, hdescribed.dimension.symm⟩
  | some name =>
    obtain ⟨-, p, hp, rfl, -⟩ := (hb.members a ha).parent name hparent
    obtain ⟨segments, hne, hjoin, -⟩ := exists_segments hb hc hp
    exact ⟨segments, hne, hjoin⟩

/-- **Two members have the same unique name** if and only if they have the same name below the same
parent, or below dimensions of the same unique name. -/
theorem uniqueName_eq_iff (hb : c.Built d) (hc : c.Filled d) {a b : Member} (ha : a ∈ c.members)
    (hbm : b ∈ c.members) : a.label.uniqueName = b.label.uniqueName ↔
      a.parent.getD a.dimension = b.parent.getD b.dimension ∧ a.label.name = b.label.name := by
  obtain ⟨_, _, hda⟩ := hc.exists_described ha
  obtain ⟨_, _, hdb⟩ := hc.exists_described hbm
  obtain ⟨segments, hne, hjoin⟩ := exists_segments_prefix hb hc ha
  obtain ⟨others, hne', hjoin'⟩ := exists_segments_prefix hb hc hbm
  have hua := congrArg Label.uniqueName hda.label
  have hub := congrArg Label.uniqueName hdb.label
  constructor
  · intro h
    have hsame : joinSegments (segments ++ [a.label.name])
        = joinSegments (others ++ [b.label.name]) := by
      rw [joinSegments_append_singleton hne, joinSegments_append_singleton hne', hjoin, hjoin']
      exact hua.symm.trans (h.trans hub)
    obtain ⟨hbefore, hname⟩ := List.append_inj' (joinSegments_injective hsame) rfl
    refine ⟨?_, (List.cons.inj hname).1⟩
    rw [← hjoin, ← hjoin', hbefore]
  · rintro ⟨hbefore, hname⟩
    rw [hua, hub, hbefore, hname]

/-- A list whose parts of one key have no repetitions has none. -/
private theorem nodup_of_filter_key {α β : Type} [BEq β] [LawfulBEq β] (key : α → β)
    {as : List α} (h : ∀ b, (as.filter fun a => key a == b).Nodup) : as.Nodup := by
  induction as with
  | nil => exact List.nodup_nil
  | cons a as ih =>
    have hhead := h (key a)
    have hcons : (a :: as).filter (fun x => key x == key a)
        = a :: as.filter fun x => key x == key a := List.filter_cons_of_pos (by simp)
    rw [hcons, List.nodup_cons] at hhead
    refine List.nodup_cons.2 ⟨fun ha => hhead.1 ?_, ih fun b => ?_⟩
    · exact List.mem_filter.2 ⟨ha, beq_self_eq_true (key a)⟩
    · exact (h b).sublist ((List.sublist_cons_self a as).filter _)

/-- **No member is made twice**: those of one level differ in their ordinals. -/
theorem Filled.nodup_members (hc : c.Filled d) : c.members.Nodup := by
  refine nodup_of_filter_key Member.level fun name => ?_
  rw [hc.members]
  cases levelNamed? name d.toLevels with
  | none => exact List.nodup_nil
  | some l => exact Level.nodup_membersOf

/-- **Members are found by their unique names** if and only if these differ. -/
theorem member?_uniqueName_iff (hc : c.Filled d) :
    (∀ m ∈ c.members, c.member? m.label.uniqueName = some m)
      ↔ (c.members.map fun m => m.label.uniqueName).Nodup := by
  constructor
  · intro h
    refine hc.nodup_members.map_on fun a ha b hb hname => ?_
    have hfound := h a ha
    rw [hname, h b hb] at hfound
    exact (Option.some.inj hfound).symm
  · exact fun hn m hm => member?_uniqueName hn hm

/-- The last member of a unique name is the one that is found. -/
theorem member?_of_split {before after : List Member} {a : Member}
    (hsplit : c.members = before ++ a :: after)
    (hlast : ∀ b ∈ after, b.label.uniqueName ≠ a.label.uniqueName) :
    c.member? a.label.uniqueName = some a := by
  rw [member?, lastNamed?, hsplit, List.reverse_append, List.reverse_cons, List.append_assoc,
    List.find?_append, List.find?_eq_none.2, Option.none_or]
  · exact List.find?_cons_of_pos BEq.rfl
  · intro b hb
    rw [beq_iff_eq]
    exact hlast b (List.mem_reverse.1 hb)

/-! ### All together -/

/-- **The members of a cube that is built.**  They are what the descriptions give, one by one and at
the depths of their levels.  Two of them have the same unique name if and only if they have the same
name below the same parent or dimension; the later one is found then, so all members are found by
their unique names if and only if these differ.  A member at the root has no parent, and the parent
of every member that has one names a member that came before and is one level above. -/
theorem members_parented (hbuild : d.build = .ok c) :
    List.Forall₂ MemberDescription.Gives d.members c.members
    ∧ (∀ a ∈ c.members, ∃ l ∈ d.toLevels, a.level = l.label.uniqueName
      ∧ a.hierarchy = l.hierarchy ∧ a.depth = l.depth)
    ∧ (∀ a ∈ c.members, ∀ b ∈ c.members, a.label.uniqueName = b.label.uniqueName ↔
      a.parent.getD a.dimension = b.parent.getD b.dimension ∧ a.label.name = b.label.name)
    ∧ ((∀ m ∈ c.members, c.member? m.label.uniqueName = some m)
      ↔ (c.members.map fun m => m.label.uniqueName).Nodup)
    ∧ (∀ before a after, c.members = before ++ a :: after →
      (∀ b ∈ after, b.label.uniqueName ≠ a.label.uniqueName) →
      c.member? a.label.uniqueName = some a)
    ∧ (∀ a ∈ c.members, a.depth = 0 → a.parent = none)
    ∧ ∀ before a after, c.members = before ++ a :: after → ∀ name ∈ a.parent,
      ∃ p, lastNamed? before name = some p ∧ p.depth + 1 = a.depth := by
  have hb := CubeDescription.built hbuild
  have hc := CubeDescription.filled hbuild
  obtain ⟨hgives, hparented⟩ := CubeDescription.gives_and_parented hbuild
  refine ⟨hgives, fun a ha => (hb.members a ha).level, fun a ha b hbm =>
    uniqueName_eq_iff hb hc ha hbm, member?_uniqueName_iff hc, ?_, fun a ha =>
    hb.parent_eq_none ha, ?_⟩
  · exact fun _ _ _ => member?_of_split
  · exact fun _ _ _ hsplit _ => parent_of_split hparented hsplit

/-- In the cube of the visits, all members are found, and a city has its country as parent. -/
theorem members_parented_visits :
    (∀ m ∈ visitsCube.members, visitsCube.member? m.label.uniqueName = some m)
      ∧ ∃ before city after, visitsCube.members = before ++ city :: after
        ∧ city.label.uniqueName = "[Geo].[AT].[Linz]"
        ∧ ∃ p, lastNamed? before "[Geo].[AT]" = some p ∧ p.depth + 1 = city.depth := by
  obtain ⟨-, -, -, hfound, -, -, hparent⟩ := members_parented build_visits
  have hn : (visitsCube.members.map fun m => m.label.uniqueName).Nodup := by decide +kernel
  obtain ⟨city, hcity, hname, hcountry⟩ : ∃ city ∈ visitsCube.members,
      city.label.uniqueName = "[Geo].[AT].[Linz]" ∧ city.parent = some "[Geo].[AT]" := by
    decide +kernel
  obtain ⟨before, after, hsplit⟩ := List.append_of_mem hcity
  exact ⟨hfound.2 hn, before, city, after, hsplit, hname,
    hparent before city after hsplit _ hcountry⟩

/-! ### A cube that is no forest -/

/-- A country that is described twice, and a city that is described without a country. -/
def twice : CubeDescription where
  name := "Sales"
  dimensions := [⟨"Geo", .other, ["Country", "City"]⟩]
  members := [⟨"[Geo].[Country]", "AT", none⟩, ⟨"[Geo].[Country]", "AT", none⟩,
    ⟨"[Geo].[City]", "Graz", none⟩]
  measures := []
  facts := []

theorem isOk_twice : twice.build.isOk = true := by decide +kernel

/-- **Accepted members need not make up a forest**: two of them have one unique name, the first of
which is not found by it, and one below the root has no parent. -/
theorem not_forest : ∃ c, twice.build = .ok c
    ∧ ¬ (c.members.map fun m => m.label.uniqueName).Nodup
    ∧ ¬ (∀ m ∈ c.members, c.member? m.label.uniqueName = some m)
    ∧ ¬ ∀ m ∈ c.members, 0 < m.depth → m.parent ≠ none := by
  refine ⟨twice.build.get isOk_twice, Outcome.eq_ok_get isOk_twice, ?_, ?_, ?_⟩
  · decide +kernel
  · decide +kernel
  · decide +kernel

end MemoryCube

end Datacube
