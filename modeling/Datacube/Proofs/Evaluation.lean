import Datacube.Proofs.Correspondences
import Datacube.Proofs.Lookups

/-!
# What values are made of

Evaluation makes no schema objects.  Whatever object occurs in the value of an expression stands in
the expression itself, is defined by the query, or is offered by the provider.  An expression has
the same value with any two providers that list the same objects for the queried cube.

## Main definitions

* `Value.objects` — the objects in a value.
* `Context.Within` — whether a condition holds of all objects in a context.
* `Meaning.Agrees` — whether two meanings have the same values and pass a condition on from the
  context to the value.
* `Provider.Matches.correspondence` — how evaluations with two such providers correspond.

## Main results

* `Provider.Matches.evaluate` — **evaluation agrees** and keeps every condition on the objects that
  are offered or stand in the expression.
-/

namespace Datacube

/-! ### Objects in values -/

mutual

/-- The schema objects in a value. -/
def Value.objects : Value → List SchemaObject
  | .object o => [o]
  | .set values => Value.objectsOf values
  | .tuple values => Value.objectsOf values
  | .number _ | .text _ | .boolean _ | .null => []

/-- The schema objects in values. -/
def Value.objectsOf : List Value → List SchemaObject
  | [] => []
  | v :: vs => v.objects ++ Value.objectsOf vs

end

namespace Value

/-- Whether a condition holds of all schema objects in a value. -/
def All (ok : SchemaObject → Prop) (v : Value) : Prop := ∀ o ∈ v.objects, ok o

theorem mem_objectsOf {o : SchemaObject} {values : List Value} :
    o ∈ objectsOf values ↔ ∃ v ∈ values, o ∈ v.objects := by
  induction values with
  | nil => simp [objectsOf]
  | cons v vs ih => simp [objectsOf, ih]

variable {ok : SchemaObject → Prop} {v : Value} {values : List Value} {o : SchemaObject}

@[simp] theorem all_object : (object o).All ok ↔ ok o := List.forall_mem_singleton

/-- A condition holds of all objects in a value without objects. -/
theorem all_of_objects_eq_nil (h : v.objects = []) : v.All ok := fun _ ho =>
  absurd (h ▸ ho) List.not_mem_nil

@[simp] theorem all_number {x : Float} : (number x).All ok := all_of_objects_eq_nil rfl

@[simp] theorem all_text {s : String} : (text s).All ok := all_of_objects_eq_nil rfl

@[simp] theorem all_boolean {b : Bool} : (boolean b).All ok := all_of_objects_eq_nil rfl

@[simp] theorem all_null : null.All ok := all_of_objects_eq_nil rfl

private theorem all_objectsOf :
    (∀ o ∈ objectsOf values, ok o) ↔ ∀ v ∈ values, v.All ok := by
  simp only [mem_objectsOf, All]
  constructor
  · intro h v hv o ho
    exact h o ⟨v, hv, ho⟩
  · rintro h o ⟨v, hv, ho⟩
    exact h v hv o ho

@[simp] theorem all_set : (set values).All ok ↔ ∀ v ∈ values, v.All ok := by
  rw [← all_objectsOf, All, objects]

@[simp] theorem all_tuple : (tuple values).All ok ↔ ∀ v ∈ values, v.All ok := by
  rw [← all_objectsOf, All, objects]

theorem All.elements (h : v.All ok) : ∀ e ∈ v.elements, e.All ok := by
  cases v with
  | set values => exact all_set.1 h
  | _ => exact List.forall_mem_singleton.2 h

theorem All.components (h : v.All ok) : ∀ e ∈ v.components, e.All ok := by
  cases v with
  | tuple values => exact all_tuple.1 h
  | _ => exact List.forall_mem_singleton.2 h

theorem All.member (h : v.All ok) : ∀ a ∈ v.member?, ok (.member a) := by
  intro a ha
  cases v with
  | object o =>
    cases o with
    | member b =>
      cases ha
      exact all_object.1 h
    | _ => cases ha
  | _ => cases ha

end Value

/-! ### Contexts and meanings -/

/-- Whether a context belongs to a cube and a condition holds of all schema objects in it. -/
structure Context.Within (cube : Cube) (ok : SchemaObject → Prop) (c : Context) : Prop where
  cube : ∀ x ∈ c.cube, x = cube
  members : ∀ a ∈ c.members, ok (.member a)
  sets : ∀ s ∈ c.sets, s.2.All ok
  current : ∀ v ∈ c.current, v.All ok

namespace Context.Within

variable {cube : Cube} {ok : SchemaObject → Prop} {c : Context} (h : c.Within cube ok)

theorem ofCube (cube : Cube) (ok : SchemaObject → Prop) :
    (Context.ofCube cube).Within cube ok where
  cube _ hx := (Option.some.inj hx).symm
  members _ ha := absurd ha List.not_mem_nil
  sets _ hs := absurd hs List.not_mem_nil
  current _ hv := nomatch hv

include h

/-- The context in which a filter tests an element. -/
theorem within {v : Value} (hv : v.All ok) : (c.within v).Within cube ok := by
  refine ⟨h.cube, h.members, h.sets, ?_⟩
  rintro _ ⟨⟩
  exact hv

theorem withSet {name : String} {v : Value} (hv : v.All ok) :
    (c.withSet name v).Within cube ok := by
  refine ⟨h.cube, h.members, ?_, h.current⟩
  exact List.forall_mem_append.2 ⟨h.sets, List.forall_mem_singleton.2 hv⟩

theorem withMember {a : Member} (ha : ok (.member a)) : (c.withMember a).Within cube ok := by
  refine ⟨h.cube, ?_, h.sets, h.current⟩
  exact List.forall_mem_append.2 ⟨h.members, List.forall_mem_singleton.2 ha⟩

theorem mono {ok' : SchemaObject → Prop} (hok : ∀ o, ok o → ok' o) : c.Within cube ok' where
  cube := h.cube
  members a ha := hok _ (h.members a ha)
  sets s hs o ho := hok o (h.sets s hs o ho)
  current v hv o ho := hok o (h.current v hv o ho)

theorem member? {name : String} {a : Member} (ha : c.member? name = some a) : ok (.member a) :=
  h.members a (List.mem_of_find?_eq_some ha)

theorem set? {name : String} {v : Value} (hv : c.set? name = some v) : v.All ok := by
  obtain ⟨s, hs, rfl⟩ := Option.map_eq_some_iff.1 hv
  exact h.sets s (List.mem_reverse.1 (List.mem_of_find?_eq_some hs))

theorem requireCube {m n : Type → Type} [Monad m] [MonadExcept Fault m] [Monad n]
    [MonadExcept Fault n] {S : Simulation m n} :
    S.Relates c.requireCube c.requireCube fun x => x = cube := by
  rw [Context.requireCube, Context.requireCube]
  cases hx : c.cube with
  | some x => exact S.pure (h.cube x hx)
  | none => exact S.throw

end Context.Within

section

variable {m n : Type → Type} [Monad m] [MonadExcept Fault m] [Monad n] [MonadExcept Fault n]

/-- Whether two meanings have the same values in the contexts of a cube, and pass a condition on
schema objects on from the context to the value. -/
def Meaning.Agrees (S : Simulation m n) (cube : Cube) (ok : SchemaObject → Prop) (f : Meaning m)
    (g : Meaning n) : Prop :=
  ∀ c : Context, c.Within cube ok → S.Relates (f c) (g c) (Value.All ok)

end

/-! ### Evaluation -/

namespace Provider.Matches

variable {m n : Type → Type} [Monad m] [MonadExcept Fault m] [Monad n] [MonadExcept Fault n]
variable {S : Simulation m n} {p : Provider m} {q : Provider n} {cube : Cube}
  {ok : SchemaObject → Prop}

/-- What an identifier names is defined in the context or offered. -/
theorem resolve (h : Matches S p q cube ok) (identifier : Identifier) :
    Meaning.Agrees S cube ok (p.resolve identifier) (q.resolve identifier) := by
  intro c hc
  rw [Provider.resolve, Provider.resolve]
  cases ha : c.member? identifier.uniqueName with
  | some a => exact S.pure (Value.all_object.2 (hc.member? ha))
  | none =>
    cases hv : c.set? identifier.uniqueName with
    | some v => exact S.pure (hc.set? hv)
    | none =>
      refine S.bind hc.requireCube fun x hx => ?_
      subst hx
      exact S.bind (h.resolveObject identifier) fun o ho => S.pure (Value.all_object.2 ho)

section

variable [LawfulMonad m] [LawfulMonad n]

/-- A condition on what is listed may be weakened. -/
theorem mono {ok' : SchemaObject → Prop} (h : Matches S p q cube ok) (hok : ∀ o, ok o → ok' o) :
    Matches S p q cube ok' where
  dimensions := S.mono h.dimensions fun _ hall a ha => hok _ (hall a ha)
  hierarchies d := S.mono (h.hierarchies d) fun _ hall a ha => hok _ (hall a ha)
  levels a := S.mono (h.levels a) fun _ hall a ha => hok _ (hall a ha)
  members l := S.mono (h.members l) fun _ hall a ha => hok _ (hall a ha)
  measures := S.mono h.measures fun _ hall a ha => ⟨hok _ (hall a ha).1, (hall a ha).2⟩
  generations := h.generations

variable (h : Matches S p q cube ok)

include h

theorem hierarchyMembers (hierarchy : Hierarchy) :
    S.Relates (p.hierarchyMembers cube hierarchy) (q.hierarchyMembers cube hierarchy) fun ms =>
      ∀ a ∈ ms, ok (.member a) := by
  refine S.bind (h.levels hierarchy) fun ls _ => ?_
  refine S.bind (S.mapM_forall fun l _ => h.levelMembers l) fun mss hmss => S.pure ?_
  intro a ha
  obtain ⟨ms, hms, ha⟩ := List.mem_flatten.1 ha
  exact hmss ms hms a ha

theorem dimensionMembers (dimension : Dimension) :
    S.Relates (p.dimensionMembers cube dimension) (q.dimensionMembers cube dimension) fun ms =>
      ∀ a ∈ ms, ok (.member a) := by
  refine S.bind (h.hierarchies dimension) fun hs _ => ?_
  refine S.bind (S.mapM_forall fun a _ => h.hierarchyMembers a) fun mss hmss => S.pure ?_
  intro a ha
  obtain ⟨ms, hms, ha⟩ := List.mem_flatten.1 ha
  exact hmss ms hms a ha

theorem allMembers (o : SchemaObject) :
    S.Relates (p.allMembers cube o) (q.allMembers cube o) fun ms => ∀ a ∈ ms, ok (.member a) := by
  cases o with
  | dimension d => exact h.dimensionMembers d
  | hierarchy a => exact h.hierarchyMembers a
  | level l => exact h.levelMembers l
  | cube _ => exact S.throw
  | member _ => exact S.throw

/-- Evaluations with providers that list the same objects go through the same contexts of the
cube, and values are made of objects that satisfy the condition. -/
def correspondence : Correspondence S p q where
  Contexts c d := c = d ∧ c.Within cube ok
  Valid := Value.All ok
  Element := Value.All ok
  within := by
    rintro c _ v ⟨rfl, hc⟩ hv
    exact ⟨rfl, hc.within hv⟩
  membersOf := by
    rintro c _ ⟨rfl, hc⟩
    refine S.mono hc.requireCube fun x hx o => ?_
    subst hx
    exact S.mono (h.allMembers o) fun _ hms a ha => Value.all_object.2 (hms a ha)
  valid := id
  set := Value.all_set.2
  elements := Value.All.elements
  tuple := Value.all_tuple.2
  concat hx hy :=
    Value.all_tuple.2 (List.forall_mem_append.2 ⟨hx.components, hy.components⟩)
  number _ := Value.all_number
  text _ := Value.all_text
  boolean _ := Value.all_boolean
  null := Value.all_null

theorem related_currentMember :
    h.correspondence.Related (Meaning.currentMember (m := m)) (Meaning.currentMember (m := n)) := by
  rintro c _ ⟨rfl, hc⟩
  refine S.pure ?_
  cases hcurrent : c.current with
  | none => exact Value.all_null
  | some v => exact hc.current v hcurrent

/-- Evaluations of an expression correspond. -/
theorem related_evaluate (e : Expr) (he : ∀ o ∈ e.objects, ok o) :
    h.correspondence.Related (p.evaluate e) (q.evaluate e) := by
  have hresolve : ∀ i, h.correspondence.Related (p.resolve i) (q.resolve i) := by
    rintro i c _ ⟨rfl, hc⟩
    exact h.resolve i c hc
  exact h.correspondence.evaluate_self hresolve e (fun o ho => Value.all_object.2 (he o ho))
    fun _ => h.related_currentMember

/-- **Evaluation agrees**, and it keeps every condition on schema objects that holds of what is
listed and of what stands in the expression. -/
theorem evaluate (e : Expr) (he : ∀ o ∈ e.objects, ok o) :
    (p.evaluate e).Agrees S cube ok (q.evaluate e) :=
  fun _ hc => h.related_evaluate e he ⟨rfl, hc⟩

end

end Provider.Matches

end Datacube
