import Datacube.Proofs.Evaluation

/-!
# What statements evaluate to

The result of a statement consists of axes, which are made of positions, which are made of members.
Every member is listed by the provider, stands in the statement, or is calculated by one of its
definitions; and a definition calculates from members that are known before it.

## Main definitions

* `Described` — how the definitions of a statement describe calculated members.
* `Query.OfStatement` — what is known of the result of a statement.

## Main results

* `Value.toAxis_eq_ok` — the axis that a value describes has the members of the value.
* `Provider.evaluateQuery_relates` — **the result of a statement** is as described, and it is the
  same with any two providers that list the same objects for the queried cube.
-/

namespace Datacube

/-! ### Axes of values -/

namespace Value

private theorem requireMember_eq_ok {ordinal : Nat} {v : Value} {a : Member}
    (h : requireMember ordinal v = .ok a) : a ∈ v.member? := by
  rw [requireMember] at h
  split at h
  · rename_i b hb
    cases h
    exact hb
  · cases h

/-- The members of a position are the objects of the element that describes it. -/
private theorem all_toPosition {ok : SchemaObject → Prop} {ordinal : Nat} {v : Value}
    {position : Position} (hv : v.All ok) (h : toPosition ordinal v = .ok position) :
    ∀ a ∈ position.members, ok (.member a) := by
  unfold toPosition at h
  split at h
  · cases h
    exact List.forall_mem_singleton.2 (all_object.1 hv)
  · rename_i first rest
    obtain ⟨members, hmembers, rfl⟩ := Outcome.map_eq_ok.1 h
    intro a ha
    obtain ⟨w, hw, hwa⟩ := exists_left_of_forall₂ (Outcome.mapM_eq_ok.1 hmembers) ha
    exact (all_tuple.1 hv w hw).member a (requireMember_eq_ok hwa)
  · cases h

/-- **The axis that a value describes** is made of its positions, and their members are objects of
the value. -/
theorem toAxis_eq_ok {ok : SchemaObject → Prop} {ordinal : AxisOrdinal} {v : Value} {axis : Axis}
    (hv : v.All ok) (h : v.toAxis ordinal = .ok axis) :
    axis = Axis.ofPositions axis.ordinal axis.positions
      ∧ ∀ a ∈ Axis.membersOf axis.positions, ok (.member a) := by
  obtain ⟨positions, hpositions, rfl⟩ := Outcome.map_eq_ok.1 h
  refine ⟨rfl, ?_⟩
  intro a ha
  obtain ⟨position, hmem, ha⟩ := List.mem_flatMap.1 ha
  obtain ⟨⟨w, n⟩, hw, hposition⟩ :=
    exists_left_of_forall₂ (Outcome.mapM_eq_ok.1 hpositions) hmem
  exact all_toPosition (hv.elements w (List.fst_mem_of_mem_zipIdx hw)) hposition a ha

end Value

/-! ### Objects of statements -/

namespace Select

variable {s : Select Expr} {o : SchemaObject}

private theorem mem_objectsOf {es : List Expr} {e : Expr} (he : e ∈ es) (ho : o ∈ e.objects) :
    o ∈ Expr.objectsOf es := by
  induction es with
  | nil => cases he
  | cons e' es ih =>
    rw [Expr.objectsOf]
    rcases List.mem_cons.1 he with rfl | he
    · exact List.mem_append_left _ ho
    · exact List.mem_append_right _ (ih he)

private theorem mem_axesObjects {as : List (AxisSpec Expr)} {a : AxisSpec Expr} (ha : a ∈ as)
    (ho : o ∈ a.expr.objects) : o ∈ Expr.axesObjects as := by
  induction as with
  | nil => cases ha
  | cons a' as ih =>
    rw [Expr.axesObjects]
    rcases List.mem_cons.1 ha with rfl | ha
    · exact List.mem_append_left _ (by rwa [Expr.axisObjects])
    · exact List.mem_append_right _ (ih ha)

private theorem mem_objects : o ∈ s.objects ↔ ((o ∈ Expr.objectsOf s.definitions
    ∨ o ∈ Expr.axesObjects s.axes) ∨ o ∈ s.source.objects) ∨ o ∈ Expr.slicerObjects s.slicer := by
  cases s
  rw [objects, Expr.selectObjects, List.mem_append, List.mem_append, List.mem_append]

theorem mem_objects_of_definition {e : Expr} (he : e ∈ s.definitions) (ho : o ∈ e.objects) :
    o ∈ s.objects :=
  mem_objects.2 (.inl (.inl (.inl (mem_objectsOf he ho))))

theorem mem_objects_of_axis {a : AxisSpec Expr} (ha : a ∈ s.axes) (ho : o ∈ a.expr.objects) :
    o ∈ s.objects :=
  mem_objects.2 (.inl (.inl (.inr (mem_axesObjects ha ho))))

theorem mem_objects_of_source (ho : o ∈ s.source.objects) : o ∈ s.objects :=
  mem_objects.2 (.inl (.inr ho))

theorem mem_objects_of_slicer {e : Expr} (he : e ∈ s.slicer) (ho : o ∈ e.objects) :
    o ∈ s.objects := by
  refine mem_objects.2 (.inr ?_)
  rw [Option.mem_def] at he
  rwa [he, Expr.slicerObjects]

end Select

/-! ### Definitions -/

/-- How definitions describe calculated members: each is calculated from two members that are known
already or were described before it. -/
inductive Described (known : Member → Prop) : List Expr → List Member → Prop where
  | nil : Described known [] []
  | member {definitions : List Expr} {members : List Member} {x y : Member} (name : Identifier)
      (value : Expr) (properties : List (String × Expr)) (operator : Arithmetic) (ordinal : Nat) :
    Described known definitions members → (known x ∨ x ∈ members) → (known y ∨ y ∈ members) →
      Described known (definitions ++ [.calculatedMember name value properties])
        (members ++ [.calculated (.ofName name.uniqueName name.name) x ordinal
          ⟨operator, x.label.uniqueName, y.label.uniqueName⟩])
  | namedSet {definitions : List Expr} {members : List Member} (name : Identifier) (value : Expr) :
    Described known definitions members →
      Described known (definitions ++ [.namedSet name value]) members

theorem Described.mono {known known' : Member → Prop} {definitions : List Expr}
    {members : List Member} (h : Described known definitions members)
    (hknown : ∀ a, known a → known' a) : Described known' definitions members := by
  induction h with
  | nil => exact .nil
  | member name value properties operator ordinal _ hx hy ih =>
    exact .member name value properties operator ordinal ih (hx.imp_left (hknown _))
      (hy.imp_left (hknown _))
  | namedSet name value _ ih => exact .namedSet name value ih

/-- The calculated members have a property that passes from operands to results. -/
theorem Described.forall {known : Member → Prop} {definitions : List Expr} {members : List Member}
    (h : Described known definitions members) {P : Member → Prop} (hknown : ∀ a, known a → P a)
    (hstep : ∀ (name : Identifier) value properties x y ordinal operator,
      Expr.calculatedMember name value properties ∈ definitions → P x → P y →
      P (.calculated (.ofName name.uniqueName name.name) x ordinal
        ⟨operator, x.label.uniqueName, y.label.uniqueName⟩)) :
    ∀ a ∈ members, P a := by
  induction h with
  | nil => exact fun _ ha => absurd ha List.not_mem_nil
  | member name value properties operator ordinal _ hx hy ih =>
    have hmembers := ih fun name value properties x y ordinal operator hmem =>
      hstep name value properties x y ordinal operator (List.mem_append_left _ hmem)
    refine List.forall_mem_append.2 ⟨hmembers, List.forall_mem_singleton.2 ?_⟩
    refine hstep _ _ _ _ _ _ _ (List.mem_append_right _ (List.mem_singleton.2 rfl)) ?_ ?_
    · exact hx.elim (hknown _) (hmembers _)
    · exact hy.elim (hknown _) (hmembers _)
  | namedSet name value _ ih =>
    exact ih fun name value properties x y ordinal operator hmem =>
      hstep name value properties x y ordinal operator (List.mem_append_left _ hmem)

/-- Every calculated member has the name of its definition and a formula. -/
theorem Described.exists_definition {known : Member → Prop} {definitions : List Expr}
    {members : List Member} (h : Described known definitions members) {a : Member}
    (ha : a ∈ members) : ∃ name value properties,
      Expr.calculatedMember name value properties ∈ definitions
        ∧ a.label.uniqueName = name.uniqueName ∧ a.formula? ≠ none ∧ a.isMeasure = true := by
  induction h with
  | nil => cases ha
  | member name value properties operator ordinal _ _ _ ih =>
    rcases List.mem_append.1 ha with ha | ha
    · obtain ⟨name, value, properties, hmem, h⟩ := ih ha
      exact ⟨name, value, properties, List.mem_append_left _ hmem, h⟩
    · rw [List.mem_singleton.1 ha]
      exact ⟨name, value, properties, List.mem_append_right _ (List.mem_singleton.2 rfl), rfl,
        Option.some_ne_none _, rfl⟩
  | namedSet name value _ ih =>
    obtain ⟨name, value, properties, hmem, h⟩ := ih ha
    exact ⟨name, value, properties, List.mem_append_left _ hmem, h⟩

/-! ### Results -/

/-- Whether an object of a cube is listed or stands in a statement. -/
def Select.Knows (s : Select Expr) (ok : Cube → SchemaObject → Prop) (cube : Cube)
    (o : SchemaObject) : Prop := ok cube o ∨ o ∈ s.objects

/-- What is known of the result of a statement, where the listed objects satisfy a condition. -/
structure Query.OfStatement (ok : Cube → SchemaObject → Prop) (s : Select Expr) (q : Query) :
    Prop where
  cube : s.Knows ok q.cube (.cube q.cube)
  calculated : Described (fun a => s.Knows ok q.cube (.member a)) s.definitions q.calculated
  axis : ∀ axis ∈ q.axes ++ q.slicer.toList, axis = Axis.ofPositions axis.ordinal axis.positions
  member : ∀ axis ∈ q.axes ++ q.slicer.toList, ∀ a ∈ Axis.membersOf axis.positions,
    s.Knows ok q.cube (.member a) ∨ a ∈ q.calculated

section

variable {m n : Type → Type} [Monad m] [MonadExcept Fault m] [Monad n] [MonadExcept Fault n]

theorem Simulation.lift {S : Simulation m n} {α : Type} (x : Outcome α) :
    S.Relates (Provider.lift x) (Provider.lift x) fun a => x = .ok a := by
  cases x with
  | ok a => exact S.pure rfl
  | error e => exact S.throw

/-- The queried cube is offered or stands in the statement. -/
theorem Provider.Offers.sourceCube {A : Assurance m} {p : Provider m}
    {ok : Cube → SchemaObject → Prop} (h : Offers A p ok) (e : Expr) :
    A.Ensures (p.sourceCube e) fun x => ok x (.cube x) ∨ .cube x ∈ e.objects := by
  unfold Provider.sourceCube
  split
  · exact A.pure (.inr (by simp [Expr.objects]))
  · refine A.bind (h.cubes _) fun found hfound => ?_
    split
    · exact A.pure (.inl (hfound _ rfl))
    · exact A.throw
  · exact A.throw

end

namespace Provider.Matches

variable {m n : Type → Type} [Monad m] [MonadExcept Fault m] [LawfulMonad m] [Monad n]
  [MonadExcept Fault n] [LawfulMonad n]
variable {S : Simulation m n} {p : Provider m} {q : Provider n} {cube : Cube}

section

variable {ok : SchemaObject → Prop} (h : Matches S p q cube ok)

include h

theorem siblingCount (member : Member) :
    S.Relates (p.siblingCount cube member) (q.siblingCount cube member) fun _ => True := by
  unfold Provider.siblingCount
  split
  · exact S.bind h.measures fun _ _ => S.pure trivial
  · exact S.bind (h.levelOf member) fun _ _ => S.pure trivial

/-- A definition calculates from two members that satisfy whatever all objects do. -/
theorem calculatedMember {c : Context} {name : Identifier} {value : Expr} (hc : c.Within cube ok)
    (hvalue : ∀ o ∈ value.objects, ok o) :
    S.Relates (p.calculatedMember name value c) (q.calculatedMember name value c) fun a =>
      ∃ x y operator ordinal, ok (.member x) ∧ ok (.member y)
        ∧ a = .calculated (.ofName name.uniqueName name.name) x ordinal
          ⟨operator, x.label.uniqueName, y.label.uniqueName⟩ := by
  have hsiblings : S.Relates (c.requireCube (m := m)) (c.requireCube (m := n)) fun z => ∀ a,
      S.Relates (p.siblingCount z a) (q.siblingCount z a) fun _ => True := by
    refine S.mono hc.requireCube fun z hz a => ?_
    subst hz
    exact h.siblingCount a
  refine S.mono (Correspondence.related_calculatedMember (W := h.correspondence) ⟨rfl, hc⟩ rfl
    hsiblings fun operator lhs rhs hparts => ?_) ?_
  · -- the operands are parts of the expression
    have hmem : ∀ o, o ∈ lhs.objects ∨ o ∈ rhs.objects → o ∈ value.objects := by
      unfold formulaParts? at hparts
      split at hparts
      · obtain ⟨op, -, hop⟩ := Option.map_eq_some_iff.1 hparts
        cases hop
        intro o ho
        simpa [Expr.objects, Expr.objectsOf] using ho
      · cases hparts
    exact ⟨h.related_evaluate lhs fun o ho => hvalue o (hmem o (.inl ho)),
      h.related_evaluate rhs fun o ho => hvalue o (hmem o (.inr ho))⟩
  · rintro a ⟨x, y, operator, ordinal, hx, hy, ha⟩
    exact ⟨x, y, operator, ordinal, Value.all_object.1 hx, Value.all_object.1 hy, ha⟩

/-- What is known of an axis of a statement. -/
private def AxisKnown (ok : SchemaObject → Prop) (axis : Axis) : Prop :=
  axis = Axis.ofPositions axis.ordinal axis.positions
    ∧ ∀ a ∈ Axis.membersOf axis.positions, ok (.member a)

private theorem evaluateAxis {c : Context} (hc : c.Within cube ok) (ordinal : AxisOrdinal)
    {e : Expr} (he : ∀ o ∈ e.objects, ok o) :
    S.Relates (p.evaluateAxis ordinal e c) (q.evaluateAxis ordinal e c) (AxisKnown ok) := by
  refine S.mono (Correspondence.related_evaluateAxis (h.related_evaluate e he) ⟨rfl, hc⟩ _) ?_
  rintro axis ⟨v, hv, haxis⟩
  exact Value.toAxis_eq_ok hv haxis

private theorem evaluateAxes {c : Context} (hc : c.Within cube ok)
    {specs : List (AxisSpec Expr)} (hspecs : ∀ a ∈ specs, ∀ o ∈ a.expr.objects, ok o)
    (number : Nat) :
    S.Relates (p.evaluateAxes c number specs) (q.evaluateAxes c number specs) fun axes =>
      ∀ axis ∈ axes, AxisKnown ok axis := by
  have hsame : List.Forall₂ (fun a b => a.ordinal = b.ordinal
      ∧ h.correspondence.Related (p.evaluate a.expr) (q.evaluate b.expr)) specs specs :=
    List.forall₂_same.2 fun a ha => ⟨rfl, h.related_evaluate a.expr (hspecs a ha)⟩
  refine S.mono (Correspondence.related_evaluateAxes hsame ⟨rfl, hc⟩ number) ?_
  intro axes haxes axis haxis
  obtain ⟨ordinal, v, hv, hvalue⟩ := haxes axis haxis
  exact Value.toAxis_eq_ok hv hvalue

end

variable {ok : Cube → SchemaObject → Prop}

/-- Whether an object is known or calculated in a context. -/
private def Available (s : Select Expr) (ok : Cube → SchemaObject → Prop) (c : Context)
    (cube : Cube) (o : SchemaObject) : Prop := s.Knows ok cube o ∨ ∃ a ∈ c.members, o = .member a

private theorem matches_available (h : Matches S p q cube (ok cube)) (s : Select Expr)
    (c : Context) : Matches S p q cube (Available s ok c cube) := h.mono fun _ ho => .inl (.inl ho)

private theorem known_of_available {s : Select Expr} {c : Context} {a : Member}
    (h : Available s ok c cube (.member a)) : s.Knows ok cube (.member a) ∨ a ∈ c.members := by
  rcases h with h | ⟨b, hb, hab⟩
  · exact .inl h
  · cases hab
    exact .inr hb

/-- What holds of a context after the definitions of a statement. -/
private def Defined (s : Select Expr) (ok : Cube → SchemaObject → Prop) (cube : Cube)
    (done : List Expr) (c : Context) : Prop :=
  c.Within cube (Available s ok c cube)
    ∧ Described (fun a => s.Knows ok cube (.member a)) done c.members

private theorem define (h : Matches S p q cube (ok cube)) {s : Select Expr} {e : Expr}
    (he : e ∈ s.definitions) {done : List Expr} {c : Context} (hc : Defined s ok cube done c) :
    S.Relates (p.define c e) (q.define c e) (Defined s ok cube (done ++ [e])) := by
  obtain ⟨hwithin, hdescribed⟩ := hc
  have h' := h.matches_available s c
  have hobjects : ∀ o ∈ e.objects, Available s ok c cube o := by
    intro o ho
    exact .inl (.inr (Select.mem_objects_of_definition he ho))
  unfold Provider.define
  cases e with
  | calculatedMember name value properties =>
    have hvalue : ∀ o ∈ value.objects, Available s ok c cube o := by
      intro o ho
      apply hobjects
      rw [Expr.objects]
      exact List.mem_append_left _ ho
    refine S.bind (h'.calculatedMember hwithin hvalue) fun a ha => S.pure ?_
    obtain ⟨x, y, operator, ordinal, hx, hy, rfl⟩ := ha
    -- what was available stays available, and the new member is available from now on
    refine ⟨(hwithin.mono ?_).withMember (.inr ⟨_, by simp [Context.withMember], rfl⟩),
      .member _ _ _ _ _ hdescribed (known_of_available hx) (known_of_available hy)⟩
    rintro o (ho | ⟨b, hb, hob⟩)
    · exact .inl ho
    · exact .inr ⟨b, List.mem_append_left _ hb, hob⟩
  | namedSet name value =>
    have hvalue : ∀ o ∈ value.objects, Available s ok c cube o := by
      intro o ho
      apply hobjects
      rwa [Expr.objects]
    refine S.bind (h'.evaluate value hvalue c hwithin) fun v hv => S.pure ?_
    exact ⟨hwithin.withSet hv, .namedSet _ _ hdescribed⟩
  | _ => exact S.throw

end Provider.Matches

section

variable {m n : Type → Type} [Monad m] [MonadExcept Fault m] [LawfulMonad m] [Monad n]
  [MonadExcept Fault n] [LawfulMonad n]

/-- **The result of a statement** agrees if the queried cube does and providers list the same for
it: its axes are made of members that are listed, stand in the statement or are calculated by its
definitions. -/
theorem Provider.evaluateQuery_relates {S : Simulation m n} {p : Provider m} {q : Provider n}
    {ok : Cube → SchemaObject → Prop} {s : Select Expr} {P : Cube → Prop}
    (hsource : S.Relates (p.sourceCube s.source) (q.sourceCube s.source) P)
    (hmatches : ∀ cube, P cube → Matches S p q cube (ok cube) ∧ s.Knows ok cube (.cube cube)) :
    S.Relates (p.evaluateQuery s) (q.evaluateQuery s) fun query =>
      P query.cube ∧ query.OfStatement ok s := by
  unfold Provider.evaluateQuery
  refine S.bind hsource fun cube hP => ?_
  obtain ⟨h, hcube⟩ := hmatches cube hP
  -- along the definitions, each of which sees the members calculated before it
  have hdefine : S.Relates (s.definitions.foldlM p.define (.ofCube cube))
      (s.definitions.foldlM q.define (.ofCube cube)) (Matches.Defined s ok cube s.definitions) :=
    S.foldlM (Matches.Defined s ok cube) (fun e he done c hc => h.define he hc)
      ⟨.ofCube cube _, .nil⟩
  refine S.bind hdefine fun c hc => ?_
  obtain ⟨hwithin, hdescribed⟩ := hc
  have h' := h.matches_available s c
  -- the slicer and the axes are evaluated in the context after all definitions
  have hslicer : S.Relates (s.slicer.mapM fun e => p.evaluateAxis .slicer e c)
      (s.slicer.mapM fun e => q.evaluateAxis .slicer e c) fun slicer =>
        ∀ axis ∈ slicer, Matches.AxisKnown (Matches.Available s ok c cube) axis := by
    refine S.optionMapM (fun _ h => nomatch h) fun e he => ?_
    have hobjects : ∀ o ∈ e.objects, Matches.Available s ok c cube o := by
      intro o ho
      exact .inl (.inr (Select.mem_objects_of_slicer he ho))
    refine S.mono (h'.evaluateAxis hwithin .slicer hobjects) ?_
    rintro axis haxis _ ⟨⟩
    exact haxis
  refine S.bind hslicer fun slicer hslicer => ?_
  split
  · exact S.bind (P := fun _ => False) S.throw fun _ hfalse => hfalse.elim
  · have hspecs : ∀ a ∈ sortBy (fun a b => a.ordinal.le b.ordinal) s.axes, ∀ o ∈ a.expr.objects,
        Matches.Available s ok c cube o := by
      intro a ha o ho
      exact .inl (.inr (Select.mem_objects_of_axis (mem_sortBy.1 ha) ho))
    have haxes := h'.evaluateAxes hwithin hspecs 0
    refine S.bind haxes fun axes haxes => S.pure ⟨hP, ?_⟩
    have hall : ∀ axis ∈ axes ++ slicer.toList,
        Matches.AxisKnown (Matches.Available s ok c cube) axis := by
      refine List.forall_mem_append.2 ⟨haxes, ?_⟩
      intro axis haxis
      exact hslicer axis (Option.mem_toList.1 haxis)
    refine ⟨hcube, hdescribed, ?_, ?_⟩
    · intro axis haxis
      exact (hall axis haxis).1
    · intro axis haxis a ha
      exact Matches.known_of_available ((hall axis haxis).2 a ha)

/-- **The result of a statement**: its axes are made of members that are listed, stand in the
statement or are calculated by its definitions. -/
theorem Provider.Offers.evaluateQuery {A : Assurance m} {p : Provider m}
    {ok : Cube → SchemaObject → Prop} (h : Offers A p ok) (s : Select Expr) :
    A.Ensures (p.evaluateQuery s) (Query.OfStatement ok s) := by
  have hrelates := evaluateQuery_relates (S := A.simulation) (q := p) (h.sourceCube s.source)
    fun cube hcube => ⟨h.matches cube, hcube.imp_right Select.mem_objects_of_source⟩
  exact A.mono hrelates fun _ hquery => hquery.2

end

end Datacube
