import Datacube.Proofs.CellAccess
import Datacube.Proofs.Recollections

/-!
# Named sets mean their expressions

A named set is evaluated once, where it is defined.  Its name may as well be replaced by its
expression, which is then evaluated wherever the name stands: inside filters, where another element
is tested each time, and after what else the statement asks for.  The expression has the same value
there if it does not refer to the tested element and lookups repeat their results.

## Main definitions

* `Select.withSet` — a statement with one more named set.
* `Select.inline` — a statement with an expression in the place of a name.

## Main results

* `Provider.Steady.related_anywhere` — the tested element does not matter to an expression that does
  not refer to it.
* `Provider.Steady.related_replace` — replaced names have the value of the set.
* `Provider.Steady.relates_inline` — so a statement has its result again.
* `Connection.named_set_replaced` — **a named set may be replaced by its expression**.
-/

namespace Datacube

/-! ### Statements with a set -/

namespace Select

variable (s : Select Expr) (name : Identifier) (e : Expr)

/-- A statement with one more named set, the last one defined. -/
def withSet : Select Expr := { s with definitions := s.definitions ++ [.namedSet name e] }

/-- A statement with an expression in the place of every identifier with a unique name, on its axes
and in its slicer. -/
def inline : Select Expr :=
  { s with
    axes := s.axes.map fun a => { a with expr := a.expr.replace name.uniqueName e }
    slicer := s.slicer.map fun slicer => slicer.replace name.uniqueName e }

end Select

/-! ### Contexts -/

namespace Context

/-- Whether two contexts have the same cube and the same definitions. -/
structure SameDefinitions (c d : Context) : Prop where
  cube : c.cube = d.cube
  members : c.members = d.members
  sets : c.sets = d.sets

/-- Whether two contexts have the same cube, the same definitions but for a named set that only the
first one has, and the same tested element; the definitions are those of a third one. -/
structure Lacks (name : String) (v : Value) (c₀ c d : Context) : Prop where
  eq_withSet : c = d.withSet name v
  same : c₀.SameDefinitions d

variable {c d c₀ : Context} {name : String} {v : Value}

theorem Lacks.within (h : Lacks name v c₀ c d) {x : Value} :
    Lacks name v c₀ (c.within x) (d.within x) := by
  obtain ⟨rfl, hsame⟩ := h
  exact ⟨rfl, hsame.cube, hsame.members, hsame.sets⟩

theorem Lacks.cube (h : Lacks name v c₀ c d) : c.cube = d.cube := by
  rw [h.eq_withSet]
  rfl

theorem SameDefinitions.member? (h : c.SameDefinitions d) (name : String) :
    c.member? name = d.member? name := by
  rw [Context.member?, Context.member?, h.members]

theorem SameDefinitions.set? (h : c.SameDefinitions d) (name : String) :
    c.set? name = d.set? name := by
  rw [Context.set?, Context.set?, h.sets]

theorem relates_requireCube {m : Type → Type} [Monad m] [MonadExcept Fault m] (S : Simulation m m)
    (hcube : c.cube = d.cube) : S.Relates c.requireCube d.requireCube fun _ => True := by
  rw [requireCube, requireCube, hcube]
  cases d.cube with
  | some cube => exact S.pure trivial
  | none => exact S.throw

end Context

/-! ### Evaluation again -/

namespace Provider.Steady

variable {m : Type → Type} [Monad m] [MonadExcept Fault m] [LawfulMonad m]
variable {R : Recollection m} {p : Provider m} (h : p.Steady R) (t : R.Time)

include h

/-- Evaluations correspond in related contexts of the same cube. -/
def correspondence (Contexts : Context → Context → Prop)
    (within : ∀ {c d v}, Contexts c d → Contexts (c.within v) (d.within v))
    (cube : ∀ {c d}, Contexts c d → c.cube = d.cube) : Correspondence (R.since t) p p where
  Contexts := Contexts
  Valid _ := True
  Element _ := True
  within hc _ := within hc
  membersOf hc := (R.since t).mono (Context.relates_requireCube _ (cube hc)) fun x _ o =>
    (R.since t).mono (h.allMembers t x o) fun _ _ _ _ => trivial
  valid _ := trivial
  set _ := trivial
  elements _ _ _ := trivial
  tuple _ := trivial
  concat _ _ := trivial
  number _ := trivial
  text _ := trivial
  boolean _ := trivial
  null := trivial

omit [LawfulMonad m] in
/-- An identifier has the same value in contexts that give it the same definitions. -/
theorem resolve {i : Identifier} {c d : Context}
    (hmember : c.member? i.uniqueName = d.member? i.uniqueName)
    (hset : c.set? i.uniqueName = d.set? i.uniqueName) (hcube : c.cube = d.cube) :
    (R.since t).Relates (p.resolve i c) (p.resolve i d) fun _ => True := by
  rw [Provider.resolve, Provider.resolve, hmember, hset]
  cases d.member? i.uniqueName with
  | some a => exact (R.since t).pure trivial
  | none =>
    cases d.set? i.uniqueName with
    | some v => exact (R.since t).pure trivial
    | none =>
      refine (R.since t).bind (Context.relates_requireCube _ hcube) fun cube _ => ?_
      exact (R.since t).bind (h.resolveObject t cube i) fun o _ => (R.since t).pure trivial

/-- Evaluations in the same context correspond. -/
def again : Correspondence (R.since t) p p :=
  h.correspondence t Eq (congrArg (Context.within · _)) (congrArg Context.cube)

/-- Evaluations correspond that differ in the tested element. -/
def anywhere : Correspondence (R.since t) p p :=
  h.correspondence t Context.SameDefinitions (fun h => ⟨h.cube, h.members, h.sets⟩) fun h => h.cube

/-- Evaluations correspond if a named set is missing in the second one. -/
def lacking (name : String) (v : Value) (c₀ : Context) : Correspondence (R.since t) p p :=
  h.correspondence t (Context.Lacks name v c₀) (fun h => h.within) fun h => h.cube

/-- An expression has the same value again in the same context. -/
theorem related_again (e : Expr) : (h.again t).Related (p.evaluate e) (p.evaluate e) := by
  refine (h.again t).evaluate_self (fun i => ?_) e (fun _ _ => trivial) fun _ => ?_
  · rintro c _ rfl
    exact h.resolve t rfl rfl rfl
  · rintro c _ rfl
    exact (R.since t).pure trivial

/-- **The tested element does not matter** to an expression that does not refer to it. -/
theorem related_anywhere {e : Expr} (hcurrent : "currentmember" ∉ e.calls) :
    (h.anywhere t).Related (p.evaluate e) (p.evaluate e) := by
  refine (h.anywhere t).evaluate_self (fun i c d hcd => ?_) e (fun _ _ => trivial) fun hmem =>
    absurd hmem hcurrent
  exact h.resolve t (hcd.member? _) (hcd.set? _) hcd.cube

/-- **Replaced names have the value of the set**: whatever an expression evaluates to with the named
set, it evaluates to without it if the expression of the set stands in the place of its name. -/
theorem related_replace {name : String} {v : Value} {e : Expr} {c₀ : Context}
    (hcurrent : "currentmember" ∉ e.calls)
    (hmembers : ∀ a ∈ c₀.members, a.label.uniqueName ≠ name)
    (hv : (R.since t).Relates (pure v) (p.evaluate e c₀) fun _ => True) (x : Expr) :
    (h.lacking t name v c₀).Related (p.evaluate x) (p.evaluate (x.replace name e)) := by
  refine (h.lacking t name v c₀).evaluate (.inr (R.forgives t)) (fun i => ?_) x
    (fun _ _ => trivial) fun _ => ?_
  · rintro _ d ⟨rfl, hsame⟩
    by_cases hname : i.uniqueName = name
    · -- the name has the value of the set here, and its expression has that value there
      have hmember : (d.withSet name v).member? i.uniqueName = none := by
        rw [Context.member?_withSet, ← hsame.member?, hname]
        exact List.find?_eq_none.2 fun a ha => by simpa using hmembers a ha
      rw [if_pos hname, Provider.resolve, hmember, Context.set?_withSet, if_pos hname.symm]
      exact R.trans hv (h.related_anywhere t hcurrent hsame)
    · rw [if_neg hname, Provider.evaluate]
      refine h.resolve t rfl ?_ rfl
      rw [Context.set?_withSet, if_neg fun heq => hname heq.symm]
  · rintro _ d ⟨rfl, hsame⟩
    exact (R.since t).pure trivial

/-! ### Definitions and axes again -/

omit [LawfulMonad m] in
theorem sourceCube (e : Expr) :
    (R.since t).Relates (p.sourceCube e) (p.sourceCube e) fun _ => True := by
  unfold Provider.sourceCube
  split
  · exact (R.since t).pure trivial
  · refine (R.since t).bind (h.cube t _) fun found _ => ?_
    cases found with
    | some cube => exact (R.since t).pure trivial
    | none => exact (R.since t).throw
  · exact (R.since t).throw

/-- A definition has the same context again, and a calculated member has the name of its
definition. -/
theorem define {name : String} {c : Context} {e : Expr}
    (hc : ∀ a ∈ c.members, a.label.uniqueName ≠ name)
    (he : ∀ member value properties, e = .calculatedMember member value properties →
      member.uniqueName ≠ name) :
    (R.since t).Relates (p.define c e) (p.define c e) fun d =>
      ∀ a ∈ d.members, a.label.uniqueName ≠ name := by
  cases e with
  | calculatedMember member value properties =>
    have hsiblings : (R.since t).Relates c.requireCube c.requireCube fun cube => ∀ a,
        (R.since t).Relates (p.siblingCount cube a) (p.siblingCount cube a) fun _ => True :=
      (R.since t).mono (Context.relates_requireCube _ rfl) fun cube _ => h.siblingCount t cube
    have hmember : (R.since t).Relates (p.calculatedMember member value c)
        (p.calculatedMember member value c) _ :=
      Correspondence.related_calculatedMember (W := h.again t) rfl rfl hsiblings
        fun _ lhs rhs _ => ⟨h.related_again t lhs, h.related_again t rhs⟩
    refine (R.since t).bind hmember fun a ⟨_, _, _, _, _, _, ha⟩ => (R.since t).pure ?_
    refine List.forall_mem_append.2 ⟨hc, List.forall_mem_singleton.2 ?_⟩
    rw [ha]
    exact he member value properties rfl
  | namedSet _ value =>
    exact (R.since t).bind (h.related_again t value rfl) fun v _ => (R.since t).pure hc
  | _ => exact (R.since t).throw

omit h in
/-- A set that is defined last is evaluated in the context after all other definitions. -/
theorem foldlM_withSet (s : Select Expr) (name : Identifier) (e : Expr) (c : Context) :
    (s.withSet name e).definitions.foldlM p.define c = (do
      let c ← s.definitions.foldlM p.define c
      let v ← p.evaluate e c
      return c.withSet name.uniqueName v) := by
  simp [Select.withSet, List.foldlM_append, Provider.define]

/-- **A statement has its result again** if the name of its last named set is replaced. -/
theorem relates_inline {name : Identifier} {e : Expr} {s : Select Expr}
    (hcurrent : "currentmember" ∉ e.calls)
    (hmembers : ∀ member value properties, .calculatedMember member value properties ∈ s.definitions →
      member.uniqueName ≠ name.uniqueName) :
    (R.since t).Relates (p.evaluateQuery (s.withSet name e)) (p.evaluateQuery (s.inline name e))
      fun _ => True := by
  unfold Provider.evaluateQuery
  refine (R.since t).bind (h.sourceCube t s.source) fun cube _ => ?_
  have hdefine : (R.since t).Relates (s.definitions.foldlM p.define (.ofCube cube))
      (s.definitions.foldlM p.define (.ofCube cube)) fun c =>
        ∀ a ∈ c.members, a.label.uniqueName ≠ name.uniqueName := by
    refine (R.since t).foldlM
      (fun _ (c : Context) => ∀ a ∈ c.members, a.label.uniqueName ≠ name.uniqueName)
      (fun definition hdefinition _ c hc => ?_) fun _ ha => absurd ha List.not_mem_nil
    refine h.define t hc fun member value properties heq => ?_
    exact hmembers member value properties (heq ▸ hdefinition)
  rw [foldlM_withSet, bind_assoc]
  refine (R.since t).bind hdefine fun c hc => ?_
  rw [bind_assoc]
  -- from here on the value of the set is known
  refine R.remember (h.related_again t e rfl) fun v u _ hv => ?_
  rw [pure_bind]
  have hreplace := h.related_replace u hcurrent hc hv
  have hlacks : (h.lacking u name.uniqueName v c).Contexts (c.withSet name.uniqueName v) c :=
    ⟨rfl, rfl, rfl, rfl⟩
  have hslicer : (R.since u).Relates
      (s.slicer.mapM fun x => p.evaluateAxis .slicer x (c.withSet name.uniqueName v))
      ((s.inline name e).slicer.mapM fun x => p.evaluateAxis .slicer x c) fun _ => True := by
    rw [Select.inline]
    cases s.slicer with
    | none => exact (R.since u).pure trivial
    | some x =>
      have haxis := Correspondence.related_evaluateAxis (hreplace x) hlacks .slicer
      exact (R.since u).map haxis fun _ _ => trivial
  refine (R.since u).bind hslicer fun slicer _ => ?_
  have hlength : (s.inline name e).axes.length = (s.withSet name e).axes.length :=
    List.length_map ..
  rw [hlength]
  split
  · exact (R.since u).bind (P := fun _ => False) (R.since u).throw fun _ hfalse => hfalse.elim
  · have haxes : List.Forall₂ (fun a b => a.ordinal = b.ordinal
        ∧ (h.lacking u name.uniqueName v c).Related (p.evaluate a.expr) (p.evaluate b.expr))
        (sortBy (fun a b => a.ordinal.le b.ordinal) s.axes)
        (sortBy (fun a b => a.ordinal.le b.ordinal) (s.inline name e).axes) := by
      rw [Select.inline, sortBy_map fun _ _ => rfl, List.forall₂_map_right_iff]
      exact List.forall₂_same.2 fun a _ => ⟨rfl, hreplace a.expr⟩
    refine (R.since u).bind (Correspondence.related_evaluateAxes haxes hlacks 0) fun axes _ => ?_
    exact (R.since u).pure trivial

end Provider.Steady

/-! ### Replacing the name -/

namespace Connection

/-- A use of a connection that repeats another one has the same result right after it, and it leaves
the connection as it is. -/
theorem run_of_repeats {σ α : Type} {c after : Connection σ} {x y : Store σ → Session σ α}
    {P : α → Prop} {a : α} (hrepeats : Session.Repeats c.shelves (x c.store) (y c.store) P)
    (honly : c.shelves.Only fun _ _ => True) (h : c.run x = (.ok a, after)) :
    after.run y = (.ok a, after) := by
  obtain ⟨result, shelves, state, hx⟩ : ∃ result shelves state,
      (x c.store).run (c.shelves, c.state) = (result, shelves, state) := ⟨_, _, _, rfl⟩
  rw [run, hx] at h
  obtain ⟨rfl, rfl⟩ := Prod.mk.inj h
  obtain ⟨hextends, -, hagain⟩ :=
    hrepeats c.shelves c.state honly.extends_self a shelves state hx
  have hy : (y c.store).run (shelves, state) = _ := hagain shelves state hextends.extends_self
  exact congrArg (fun r => (r.1, { c with shelves := r.2.1, state := r.2.2 })) hy

/-- **A named set may be replaced by its expression.**  If the last definition of a statement is a
set whose expression does not refer to the tested element, and no calculated member has the name of
the set, then whatever the statement evaluates to, it evaluates to without that definition, with the
expression in the place of the name wherever it stands on the axes and in the slicer.  This is so for
every provider that gives the same answers again, and for a connection to any engine after any uses:
the connection has listed all that is looked up again, even if the engine would answer differently
now. -/
theorem named_set_replaced (s : Select Expr) (name : Identifier) (e : Expr)
    (hcurrent : "currentmember" ∉ e.calls)
    (hmembers : ∀ member value properties, .calculatedMember member value properties ∈ s.definitions →
      member.uniqueName ≠ name.uniqueName) :
    (∀ (p : Provider Outcome) query, p.evaluateQuery (s.withSet name e) = .ok query →
      p.evaluateQuery (s.inline name e) = .ok query)
    ∧ ∀ {σ : Type} (config : Config) (engine : Engine σ) (state : σ) (calls : List Call) query after,
      (Connection.after { config, engine, state } calls).run
          (·.provider.evaluateQuery (s.withSet name e)) = (.ok query, after) →
        after.run (·.provider.evaluateQuery (s.inline name e)) = (.ok query, after) := by
  refine ⟨fun p query h => ?_, fun config engine state calls query after h => ?_⟩
  · exact ((Outcome.steady p).relates_inline () hcurrent hmembers query h).1
  · set c := Connection.after { config, engine, state } calls
    have honly : c.shelves.Only fun _ _ => True :=
      only_after (Engine.lists_anything _) Shelves.only_empty calls
    have hrepeats := c.store.steady.relates_inline c.shelves hcurrent hmembers
    exact run_of_repeats (x := fun store => store.provider.evaluateQuery (s.withSet name e)) hrepeats
      honly h

/-- Austria and a set of countries. -/
def moreCountries : Expr := .call "\x7b\x7d" .braces [named ["Geo", "AT"], named ["Countries"]]

/-- A statement with a set of countries in nested braces and in the predicate of a filter. -/
def countriesStatement : Select Expr where
  definitions := [doubledAmount, .namedSet ⟨["Countries"]⟩ (named ["Geo", "DE"])]
  axes := [⟨.index 0, false, .call "\x7b\x7d" .braces
    [.call "\x7b\x7d" .braces [named ["Countries"]],
      .call "Filter" .function
        [named ["Countries"], .call "And" .binary [named ["Countries"], .literal (.text "true")]]]⟩]
  source := named ["Sales"]
  slicer := some (named ["Time", "2020"])

set_option maxRecDepth 100000 in
theorem isOk_countries : ((salesConnection.after [.execute salesStatement]).run
    (·.provider.evaluateQuery (countriesStatement.withSet ⟨["Countries"]⟩ moreCountries))).1.isOk
      = true := by
  decide +kernel

/-- The result of this statement with a set of two countries. -/
def countriesQuery : Query := Outcome.get _ isOk_countries

set_option maxRecDepth 100000 in
/-- A set is replaced that takes the place of an equally named one, to which its expression refers. -/
theorem named_set_replaced_countries :
    "currentmember" ∉ moreCountries.calls
      ∧ (∀ member value properties,
        .calculatedMember member value properties ∈ countriesStatement.definitions →
          member.uniqueName ≠ (⟨["Countries"]⟩ : Identifier).uniqueName)
      ∧ countriesQuery.axes.map Axis.size = [2]
      ∧ ∃ after, (salesConnection.after [.execute salesStatement]).run
          (·.provider.evaluateQuery (countriesStatement.withSet ⟨["Countries"]⟩ moreCountries))
            = (.ok countriesQuery, after)
        ∧ after.run
          (·.provider.evaluateQuery (countriesStatement.inline ⟨["Countries"]⟩ moreCountries))
            = (.ok countriesQuery, after) := by
  have hcurrent : "currentmember" ∉ moreCountries.calls := by decide +kernel
  have hmembers : ∀ member value properties,
      .calculatedMember member value properties ∈ countriesStatement.definitions →
        member.uniqueName ≠ (⟨["Countries"]⟩ : Identifier).uniqueName := by
    intro member value properties hmem
    simp only [countriesStatement, doubledAmount, List.mem_cons, Expr.calculatedMember.injEq,
      List.not_mem_nil, reduceCtorEq, or_false] at hmem
    rw [hmem.1]
    decide
  have hsize : countriesQuery.axes.map Axis.size = [2] := by decide +kernel
  have hquery : ((salesConnection.after [.execute salesStatement]).run
      (·.provider.evaluateQuery (countriesStatement.withSet ⟨["Countries"]⟩ moreCountries))).1
        = .ok countriesQuery := Outcome.eq_ok_get isOk_countries
  have hafter : ∃ after, (salesConnection.after [.execute salesStatement]).run
      (·.provider.evaluateQuery (countriesStatement.withSet ⟨["Countries"]⟩ moreCountries))
        = (.ok countriesQuery, after) := by
    rw [← hquery]
    exact ⟨_, (Prod.eta _).symm⟩
  refine ⟨hcurrent, hmembers, hsize, hafter.imp fun after h => ⟨h, ?_⟩⟩
  exact (named_set_replaced countriesStatement ⟨["Countries"]⟩ moreCountries hcurrent hmembers).2
    {} salesConnection.engine () [.execute salesStatement] countriesQuery after h

end Connection

end Datacube
