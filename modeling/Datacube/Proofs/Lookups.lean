import Datacube.Proofs.Assurance
import Datacube.Query.Search

/-!
# Where schema objects come from

A provider offers the objects that it lists.  Every search through a provider ends at an object
that it offers, and an object that is looked up by its unique name has that name.  Searches through
two providers that list the same objects for a cube have the same outcomes.

## Main definitions

* `Provider.Matches` — whether two providers list the same objects for a cube, all of which satisfy
  a condition.
* `Provider.Offers` — whether all objects that a provider lists satisfy a condition.

## Main results

* `Provider.Matches.levelOf` — the level of a member has the unique name that the member gives.
* `Provider.Matches.find`, `Provider.Matches.resolveObject` — **searches end at offered objects**.
-/

namespace Datacube

variable {m n : Type → Type} [Monad m] [MonadExcept Fault m] [Monad n] [MonadExcept Fault n]

/-- Whether two providers list the same objects for a cube, and all of these satisfy a condition. -/
structure Provider.Matches (S : Simulation m n) (p : Provider m) (q : Provider n) (cube : Cube)
    (ok : SchemaObject → Prop) : Prop where
  dimensions : S.Relates (p.dimensions cube) (q.dimensions cube) fun ds =>
    ∀ d ∈ ds, ok (.dimension d)
  hierarchies : ∀ d, S.Relates (p.hierarchies cube d) (q.hierarchies cube d) fun hs =>
    ∀ h ∈ hs, ok (.hierarchy h)
  levels : ∀ h, S.Relates (p.levels cube h) (q.levels cube h) fun ls => ∀ l ∈ ls, ok (.level l)
  members : ∀ l, S.Relates (p.members cube l) (q.members cube l) fun ms =>
    ∀ a ∈ ms, ok (.member a)
  measures : S.Relates (p.measures cube) (q.measures cube) fun ms =>
    ∀ a ∈ ms, ok (.member a) ∧ a.isMeasure
  generations : p.generations = q.generations

/-- Whether all objects that a provider lists for a cube satisfy a condition. -/
structure Provider.Offers (A : Assurance m) (p : Provider m) (ok : Cube → SchemaObject → Prop) :
    Prop where
  cubes : ∀ name, A.Ensures (p.cube name) fun found => ∀ x ∈ found, ok x (.cube x)
  dimensions : ∀ cube, A.Ensures (p.dimensions cube) fun ds => ∀ d ∈ ds, ok cube (.dimension d)
  hierarchies : ∀ cube d, A.Ensures (p.hierarchies cube d) fun hs =>
    ∀ h ∈ hs, ok cube (.hierarchy h)
  levels : ∀ cube h, A.Ensures (p.levels cube h) fun ls => ∀ l ∈ ls, ok cube (.level l)
  members : ∀ cube l, A.Ensures (p.members cube l) fun ms => ∀ a ∈ ms, ok cube (.member a)
  measures : ∀ cube, A.Ensures (p.measures cube) fun ms =>
    ∀ a ∈ ms, ok cube (.member a) ∧ a.isMeasure

/-- A provider lists what it offers, whenever it is asked. -/
theorem Provider.Offers.matches {A : Assurance m} {p : Provider m}
    {ok : Cube → SchemaObject → Prop} (h : Offers A p ok) (cube : Cube) :
    Matches A.simulation p p cube (ok cube) :=
  ⟨h.dimensions cube, h.hierarchies cube, h.levels cube, h.members cube, h.measures cube, rfl⟩

namespace Provider.Matches

variable {S : Simulation m n} {p : Provider m} {q : Provider n} {cube : Cube}
  {ok : SchemaObject → Prop}

/-! ### Objects by their unique names -/

theorem pick {α : Type} [Labelled α] (objects : List α) (name : String) :
    S.Relates (Provider.pick objects name) (Provider.pick objects name) fun a =>
      a ∈ objects ∧ uniqueName a = name := by
  rw [Provider.pick, Provider.pick]
  cases h : objects.find? fun a => uniqueName a == name with
  | some a => exact S.pure (mem_of_find?_key h)
  | none => exact S.throw

variable (h : Matches S p q cube ok)

include h

theorem hierarchyIn (name : String) (ds : List Dimension) :
    S.Relates (p.hierarchyIn cube name ds) (q.hierarchyIn cube name ds) fun a =>
      ok (.hierarchy a) := by
  induction ds with
  | nil => exact S.throw
  | cons d ds ih =>
    refine S.bind (h.hierarchies d) fun hs hok => ?_
    cases hfind : hs.find? fun h => uniqueName h == name with
    | some a => exact S.pure (hok a (List.mem_of_find?_eq_some hfind))
    | none => exact ih

theorem hierarchy (name : String) :
    S.Relates (p.hierarchy cube name) (q.hierarchy cube name) fun a => ok (.hierarchy a) :=
  S.bind h.dimensions fun ds _ => h.hierarchyIn name ds

/-- **The level of a member has the unique name that the member gives.** -/
theorem levelOf [LawfulMonad m] [LawfulMonad n] (member : Member) :
    S.Relates (p.levelOf cube member) (q.levelOf cube member) fun l =>
      ok (.level l) ∧ l.label.uniqueName = member.level := by
  refine S.bind (h.hierarchy member.hierarchy) fun a _ => ?_
  refine S.bind (h.levels a) fun ls hok => ?_
  exact S.mono (pick ls member.level) fun l ⟨hl, hname⟩ => ⟨hok l hl, hname⟩

/-! ### Children -/

theorem levelMembers (level : Level) :
    S.Relates (p.levelMembers cube level) (q.levelMembers cube level) fun ms =>
      ∀ a ∈ ms, ok (.member a) := by
  refine S.bind h.measures fun ms hok => ?_
  have hmeasures : ∀ a ∈ ms.filter fun a => a.level == level.label.uniqueName, ok (.member a) :=
    fun a ha => (hok a (List.mem_filter.1 ha).1).1
  cases hms : ms.filter fun a => a.level == level.label.uniqueName with
  | nil => exact h.members level
  | cons a rest => exact S.pure (hms ▸ hmeasures)

theorem memberChildren (member : Member) :
    S.Relates (p.memberChildren cube member) (q.memberChildren cube member) fun ms =>
      ∀ a ∈ ms, ok (.member a) := by
  rw [Provider.memberChildren, Provider.memberChildren]
  split
  · exact S.pure fun _ ha => absurd ha List.not_mem_nil
  · refine S.bind (h.hierarchy member.hierarchy) fun a _ => ?_
    refine S.bind (h.levels a) fun ls _ => ?_
    cases ls.find? fun l => l.depth == member.depth + 1 with
    | none => exact S.pure fun _ ha => absurd ha List.not_mem_nil
    | some level =>
      refine S.bind (h.members level) fun ms hok => ?_
      exact S.pure fun a ha => hok a (List.mem_filter.1 ha).1

/-- The children of an object are offered, one case for each kind of object. -/
theorem children (o : SchemaObject) :
    S.Relates (p.children cube o) (q.children cube o) fun os => ∀ x ∈ os, ok x := by
  cases o with
  | cube x => exact S.bind h.dimensions fun ds hok => S.pure (List.forall_mem_map.2 hok)
  | dimension d =>
    exact S.bind (h.hierarchies d) fun hs hok => S.pure (List.forall_mem_map.2 hok)
  | hierarchy a => exact S.bind (h.levels a) fun ls hok => S.pure (List.forall_mem_map.2 hok)
  | level l => exact S.bind (h.levelMembers l) fun ms hok => S.pure (List.forall_mem_map.2 hok)
  | member a => exact S.bind (h.memberChildren a) fun ms hok => S.pure (List.forall_mem_map.2 hok)

/-! ### Searches -/

theorem searchChildren (segment : String) (os : List SchemaObject) :
    S.Relates (p.searchChildren cube segment os) (q.searchChildren cube segment os) fun
      | .inl found => ok found
      | .inr next => ∀ x ∈ next, ok x := by
  induction os with
  | nil => exact S.pure fun _ hx => absurd hx List.not_mem_nil
  | cons o os ih =>
    refine S.bind (h.children o) fun children hok => ?_
    cases hfind : children.find? fun child => child.isNamed segment with
    | some child => exact S.pure (hok child (List.mem_of_find?_eq_some hfind))
    -- nothing is found below `o`, so its children go to the next generation
    | none =>
      refine S.bind ih fun result hresult => ?_
      cases result with
      | inl found => exact S.pure hresult
      | inr rest =>
        refine S.pure fun x hx => ?_
        rcases List.mem_append.1 hx with hx | hx
        · exact hok x hx
        · exact hresult x hx

theorem descend (expands : SchemaObject → Bool) (segment : String) (fuel : Nat)
    (generation : List SchemaObject) :
    S.Relates (p.descend expands cube segment fuel generation)
      (q.descend expands cube segment fuel generation) fun found => ∀ x ∈ found, ok x := by
  induction fuel generalizing generation with
  | zero =>
    rw [Provider.descend, Provider.descend]
    cases generation.filter expands with
    | nil => exact S.pure fun _ hx => nomatch hx
    | cons o os => exact S.throw
  | succ fuel ih =>
    rw [Provider.descend, Provider.descend]
    cases generation.filter expands with
    | nil => exact S.pure fun _ hx => nomatch hx
    | cons o os =>
      refine S.bind (h.searchChildren segment (o :: os)) fun result hresult => ?_
      cases result with
      | inl found => exact S.pure fun x hx => by cases hx; exact hresult
      | inr next => exact ih next

/-- **What a segment names below an object is offered.** -/
theorem find (parent : SchemaObject) (segment : String) :
    S.Relates (p.find cube parent segment) (q.find cube parent segment) fun found =>
      ∀ x ∈ found, ok x := by
  refine S.bind (h.children parent) fun children hok => ?_
  cases hfind : children.find? fun child => child.isNamed segment with
  | some child =>
    refine S.pure fun x hx => ?_
    cases hx
    exact hok child (List.mem_of_find?_eq_some hfind)
  | none =>
    dsimp only
    rw [h.generations]
    split
    · exact h.descend ..
    · exact h.descend ..

theorem follow {o : SchemaObject} (ho : ok o) (segments : List String) :
    S.Relates (p.follow cube o segments) (q.follow cube o segments) ok := by
  induction segments generalizing o with
  | nil => exact S.pure ho
  | cons segment segments ih =>
    refine S.bind (h.find o segment) fun found hfound => ?_
    cases found with
    | none => exact S.pure ho
    | some next => exact ih (hfound next rfl)

/-- **What an identifier names in a cube is offered.** -/
theorem resolveObject (identifier : Identifier) :
    S.Relates (p.resolveObject cube identifier) (q.resolveObject cube identifier) ok := by
  rw [Provider.resolveObject, Provider.resolveObject]
  cases identifier.segments with
  | nil => exact S.throw
  | cons segment segments =>
    refine S.bind (h.find _ _) fun found hfound => ?_
    cases found with
    | none => exact S.throw
    | some next => exact h.follow (hfound next rfl) _

end Provider.Matches

end Datacube
