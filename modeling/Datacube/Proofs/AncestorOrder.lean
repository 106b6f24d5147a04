import Datacube.Proofs.RollUps

/-!
# The order of members

A cube looks for the ancestor of a member in a loop: as long as the member at hand is too deep, the
loop goes on with the member that its parent names.  A later member may have taken over that name,
at any depth, so depths say nothing about the end of the loop.  It ends because the unique name of a
member extends the one of its parent.  If unique names tell the members apart, depths fall by one
from round to round, and members are ordered by their ancestors.

## Main definitions

* `MemoryCube.Climbs` — what comes of the loop from a member on.
* `MemoryCube.Arrives` — what comes of looking for the ancestor of a member.

## Main results

* `MemoryCube.Climbs.functional`, `MemoryCube.Built.climbs_climb` — **the loop ends** in one way.
* `MemoryCube.Built.arrives_iff` — what it ends with is the ancestor.
* `MemoryCube.isAncestorOrSelf_antisymm`, `MemoryCube.isAncestorOrSelf_trans` — **ancestors are an
  order** of the members.
* `MemoryCube.ancestors_ordered` — all of this together.
-/

namespace Datacube

namespace MemoryCube

variable (c : MemoryCube) (depth : Nat)

/-! ### The loop -/

/-- What comes of the loop from a member on.  Every round takes it to the member that the parent
names, until it is deep enough or there is no such member. -/
inductive Climbs : Member → Option Member → Prop where
  | stop {m : Member} : m.depth ≤ depth → Climbs m (if m.depth = depth then some m else none)
  | leave {m : Member} : depth < m.depth → m.parent.bind c.member? = none → Climbs m none
  | up {m p : Member} {result : Option Member} : depth < m.depth →
    m.parent.bind c.member? = some p → Climbs p result → Climbs m result

/-- What comes of looking for the ancestor of a member.  The loop begins at the member that its
unique name stands for. -/
def Arrives (m : Member) (result : Option Member) : Prop :=
  match c.member? m.label.uniqueName with
  | some start => c.Climbs depth start result
  | none => result = none

variable {c depth} {d : CubeDescription} {m : Member}

/-- **The loop ends in one way only.** -/
theorem Climbs.functional {result result' : Option Member} (h : c.Climbs depth m result)
    (h' : c.Climbs depth m result') : result = result' := by
  induction h with
  | stop hle =>
    cases h' with
    | stop => rfl
    | leave hlt | up hlt => exact absurd hlt (Nat.not_lt.2 hle)
  | leave hlt hnone =>
    cases h' with
    | stop hle => exact absurd hlt (Nat.not_lt.2 hle)
    | leave => rfl
    | up _ hsome =>
      rw [hnone] at hsome
      cases hsome
  | up hlt hsome _ ih =>
    cases h' with
    | stop hle => exact absurd hlt (Nat.not_lt.2 hle)
    | leave _ hnone =>
      rw [hnone] at hsome
      cases hsome
    | up _ hsome' h' =>
      obtain rfl := Option.some.inj (hsome.symm.trans hsome')
      exact ih h'

/-- The member that a parent names has a shorter unique name, even if it is not the member that was
accepted as the parent. -/
theorem Built.length_of_parent (hc : c.Built d) {p : Member} (hm : m ∈ c.members)
    (hp : m.parent.bind c.member? = some p) :
    p ∈ c.members ∧ p.label.uniqueName.length < m.label.uniqueName.length := by
  obtain ⟨name, hname, hp⟩ := Option.bind_eq_some_iff.1 hp
  obtain ⟨hmem, hunique⟩ := mem_of_member? hp
  exact ⟨hmem, hunique ▸ ((hc.members m hm).parent name hname).1⟩

/-- **The loop ends** after as many rounds as the unique name of the member is long, at the
latest. -/
theorem Built.climbs_climb (hc : c.Built d) (hm : m ∈ c.members) {fuel : Nat}
    (hfuel : m.label.uniqueName.length ≤ fuel) : c.Climbs depth m (c.climb depth fuel m) := by
  induction fuel generalizing m with
  | zero =>
    have hempty := String.length_eq_zero_iff.1 (Nat.le_zero.1 hfuel)
    exact absurd hempty (hc.members m hm).uniqueName
  | succ fuel ih =>
    rcases Nat.lt_or_ge depth m.depth with hlt | hle
    · unfold climb
      rw [if_neg (by omega), if_neg (by omega)]
      cases hparent : m.parent with
      | none => exact .leave hlt (by rw [hparent]; rfl)
      | some name =>
        have hbind : m.parent.bind c.member? = c.member? name := by rw [hparent]; rfl
        dsimp only
        cases hp : c.member? name with
        | none => exact .leave hlt (hbind.trans hp)
        | some p =>
          obtain ⟨hpmem, hlength⟩ := hc.length_of_parent hm (hbind.trans hp)
          exact .up hlt (hbind.trans hp) (ih hpmem (by omega))
    · have hstop : c.climb depth (fuel + 1) m = if m.depth = depth then some m else none := by
        unfold climb
        split
        · rfl
        · exact if_pos (by omega)
      rw [hstop]
      exact .stop hle

/-- **What the loop ends with is the ancestor**, of any member and at any depth. -/
theorem Built.arrives_iff (hc : c.Built d) {result : Option Member} :
    c.Arrives depth m result ↔ c.ancestorAt? m depth = result := by
  rw [Arrives, ancestorAt?]
  cases hstart : c.member? m.label.uniqueName with
  | none => exact eq_comm
  | some start =>
    obtain ⟨hmem, hunique⟩ := mem_of_member? hstart
    have hclimbs : c.Climbs depth start (c.climb depth m.label.uniqueName.length start) :=
      hc.climbs_climb hmem (by rw [hunique])
    rw [Option.bind_some]
    constructor
    · exact hclimbs.functional
    · rintro rfl
      exact hclimbs

/-! ### The order -/

section

variable (hn : (c.members.map fun m => m.label.uniqueName).Nodup) (hc : c.Built d)

include hn hc

theorem isAncestorOrSelf_refl (hm : m ∈ c.members) : c.isAncestorOrSelf m m = true :=
  (isAncestorOrSelf_iff hn hc hm hm).2 ⟨rfl, .self m⟩

/-- **No two members are ancestors of each other.** -/
theorem isAncestorOrSelf_antisymm {a : Member} (ha : a ∈ c.members) (hm : m ∈ c.members)
    (h : c.isAncestorOrSelf a m = true) (h' : c.isAncestorOrSelf m a = true) : a = m := by
  obtain ⟨-, hma⟩ := (isAncestorOrSelf_iff hn hc ha hm).1 h
  obtain ⟨-, ham⟩ := (isAncestorOrSelf_iff hn hc hm ha).1 h'
  obtain ⟨-, hle⟩ := ham.depth_le hn hc ha
  -- what is reached is above, so the way from the deeper member has no step
  cases hma with
  | self => rfl
  | parent hname hp hpa =>
    obtain ⟨hdepth, -⟩ := depth_of_parent hn hc hm hname hp
    obtain ⟨-, hple⟩ := hpa.depth_le hn hc (mem_of_member? hp).1
    omega

/-- **The ancestors of an ancestor are ancestors.** -/
theorem isAncestorOrSelf_trans {a b : Member} (ha : a ∈ c.members) (hb : b ∈ c.members)
    (hm : m ∈ c.members) (h : c.isAncestorOrSelf a b = true)
    (h' : c.isAncestorOrSelf b m = true) : c.isAncestorOrSelf a m = true := by
  obtain ⟨hab, hba⟩ := (isAncestorOrSelf_iff hn hc ha hb).1 h
  obtain ⟨hbm, hmb⟩ := (isAncestorOrSelf_iff hn hc hb hm).1 h'
  exact (isAncestorOrSelf_iff hn hc ha hm).2 ⟨hab.trans hbm, hmb.trans hba⟩

end

/-- **Looking for ancestors.**  In every cube that is built from a description, whatever names and
parents its members have, the loop for the ancestor of a member at a depth ends with exactly one
result, which is the ancestor.  If unique names tell the members apart, being an ancestor or the
same member is a partial order of the members, and the ancestors of an ancestor at shallower depths
are those of the member. -/
theorem ancestors_ordered (hbuild : d.build = .ok c) :
    (∀ m depth, (∃ result, c.Arrives depth m result)
      ∧ ∀ result, c.Arrives depth m result ↔ c.ancestorAt? m depth = result)
    ∧ ((c.members.map fun m => m.label.uniqueName).Nodup →
      (∀ m ∈ c.members, c.isAncestorOrSelf m m = true)
      ∧ (∀ a ∈ c.members, ∀ m ∈ c.members, c.isAncestorOrSelf a m = true →
        c.isAncestorOrSelf m a = true → a = m)
      ∧ (∀ a ∈ c.members, ∀ b ∈ c.members, ∀ m ∈ c.members, c.isAncestorOrSelf a b = true →
        c.isAncestorOrSelf b m = true → c.isAncestorOrSelf a m = true)
      ∧ ∀ m ∈ c.members, ∀ depth a, c.ancestorAt? m depth = some a →
        ∀ shallow ≤ depth, c.ancestorAt? m shallow = c.ancestorAt? a shallow) := by
  have hc := CubeDescription.built hbuild
  refine ⟨fun m depth => ⟨⟨_, hc.arrives_iff.2 rfl⟩, fun _ => hc.arrives_iff⟩, fun hn => ?_⟩
  refine ⟨fun m hm => isAncestorOrSelf_refl hn hc hm, fun a ha m hm =>
    isAncestorOrSelf_antisymm hn hc ha hm, fun a ha b hb m hm =>
    isAncestorOrSelf_trans hn hc ha hb hm, ?_⟩
  intro m hm depth a ha shallow hle
  exact (ancestorAt?_ancestorAt? hn hc hm ha hle).symm

/-- A cube in which the name of a parent has been taken over by a member that is deeper than the
child. -/
def takenOver : CubeDescription where
  name := "Sales"
  dimensions := [⟨"Geo", .other, ["Country", "City", "Street"]⟩]
  members := [⟨"[Geo].[Country]", "AT", none⟩, ⟨"[Geo].[City]", "Graz", some "[Geo].[AT]"⟩,
    ⟨"[Geo].[Street]", "AT", none⟩]
  measures := []
  facts := []

theorem isOk_takenOver : takenOver.build.isOk = true := by decide +kernel

/-- From the city, the loop goes down to the street and ends there.  Where no name is taken over,
the country is above the city, so the city is not above the country. -/
theorem ancestors_ordered_takenOver :
    (∃ city ∈ (takenOver.build.get isOk_takenOver).members,
      city.label.uniqueName = "[Geo].[AT].[Graz]" ∧ city.depth = 1
        ∧ (takenOver.build.get isOk_takenOver).Arrives 0 city none)
    ∧ ∃ country ∈ visitsCube.members, ∃ city ∈ visitsCube.members,
      visitsCube.isAncestorOrSelf country city = true
        ∧ visitsCube.isAncestorOrSelf city country ≠ true := by
  constructor
  · obtain ⟨city, hcity, hname, hdepth, hnone⟩ :
        ∃ city ∈ (takenOver.build.get isOk_takenOver).members,
          city.label.uniqueName = "[Geo].[AT].[Graz]" ∧ city.depth = 1
            ∧ (takenOver.build.get isOk_takenOver).ancestorAt? city 0 = none := by
      decide +kernel
    obtain ⟨hends, -⟩ := ancestors_ordered (Outcome.eq_ok_get isOk_takenOver)
    exact ⟨city, hcity, hname, hdepth, ((hends city 0).2 none).2 hnone⟩
  · have hn : (visitsCube.members.map fun m => m.label.uniqueName).Nodup := by decide +kernel
    obtain ⟨country, hcountry, city, hcity, hne, habove⟩ :
        ∃ country ∈ visitsCube.members, ∃ city ∈ visitsCube.members, country ≠ city
          ∧ visitsCube.isAncestorOrSelf country city = true := by
      decide +kernel
    obtain ⟨-, horder⟩ := ancestors_ordered build_visits
    obtain ⟨-, hantisymm, -⟩ := horder hn
    exact ⟨country, hcountry, city, hcity, habove, fun hbelow =>
      hne (hantisymm country hcountry city hcity habove hbelow)⟩

end MemoryCube

end Datacube
