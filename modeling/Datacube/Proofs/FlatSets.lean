import Datacube.Proofs.Correspondences
import Datacube.Proofs.Crossjoins
import Datacube.Proofs.PlanLookups

/-!
# Sets are flat

Braces take the sets inside them apart, but only one level deep.  That no set is ever an element of
another one is therefore an invariant of evaluation: it holds of all that expressions evaluate to,
of the named sets, and of the elements that filters test, whatever the provider answers.  It follows
that braces within braces make no difference, and that no position of an axis is described by a set.

## Main definitions

* `Value.IsSet`, `Value.Flat` — sets, and values in which no set is an element of a set.
* `Provider.Scope` — the contexts in which a statement has its expressions evaluated.
* `Expr.leaves` — the expressions inside braces, however deep.

## Main results

* `Provider.flat_of_evaluate` — what is evaluated in a flat context is flat.
* `Provider.evaluate_braces` — **nested braces** contribute the elements of their leaves.
* `Provider.sets_flat` — **sets stay flat** wherever a statement has an expression evaluated.
-/

namespace Datacube

/-! ### Flat values -/

namespace Value

/-- Whether a value is a set. -/
def IsSet : Value → Prop
  | set _ => True
  | _ => False

/-- Whether no set inside a value is an element of a set. -/
inductive Flat : Value → Prop where
  | set {values : List Value} (flat : ∀ v ∈ values, v.Flat) (apart : ∀ v ∈ values, ¬v.IsSet) :
    Flat (.set values)
  | tuple {values : List Value} (flat : ∀ v ∈ values, v.Flat) : Flat (.tuple values)
  | object (o : SchemaObject) : Flat (.object o)
  | number (x : Float) : Flat (.number x)
  | text (s : String) : Flat (.text s)
  | boolean (b : Bool) : Flat (.boolean b)
  | null : Flat .null

/-- Whether a flat value may be an element of a flat set. -/
def FlatElement (v : Value) : Prop := v.Flat ∧ ¬v.IsSet

theorem Flat.elements {v : Value} (h : v.Flat) : ∀ e ∈ v.elements, e.FlatElement := by
  cases h with
  | set flat apart => exact fun e he => ⟨flat e he, apart e he⟩
  | tuple flat => exact List.forall_mem_singleton.2 ⟨.tuple flat, id⟩
  | object o => exact List.forall_mem_singleton.2 ⟨.object o, id⟩
  | number x => exact List.forall_mem_singleton.2 ⟨.number x, id⟩
  | text s => exact List.forall_mem_singleton.2 ⟨.text s, id⟩
  | boolean b => exact List.forall_mem_singleton.2 ⟨.boolean b, id⟩
  | null => exact List.forall_mem_singleton.2 ⟨.null, id⟩

theorem Flat.components {v : Value} (h : v.Flat) : ∀ e ∈ v.components, e.Flat := by
  cases h with
  | tuple flat => exact flat
  | set flat apart => exact List.forall_mem_singleton.2 (.set flat apart)
  | object o => exact List.forall_mem_singleton.2 (.object o)
  | number x => exact List.forall_mem_singleton.2 (.number x)
  | text s => exact List.forall_mem_singleton.2 (.text s)
  | boolean b => exact List.forall_mem_singleton.2 (.boolean b)
  | null => exact List.forall_mem_singleton.2 .null

theorem flat_set {values : List Value} (h : ∀ v ∈ values, v.FlatElement) : (set values).Flat :=
  .set (fun v hv => (h v hv).1) fun v hv => (h v hv).2

end Value

/-- Whether the named sets of a context are flat, and the element that a filter is testing is flat
and no set. -/
structure Context.Flat (c : Context) : Prop where
  sets : ∀ s ∈ c.sets, s.2.Flat
  current : ∀ v ∈ c.current, v.FlatElement

namespace Context.Flat

variable {c : Context} (h : c.Flat)

theorem ofCube (cube : Cube) : (Context.ofCube cube).Flat where
  sets _ hs := absurd hs List.not_mem_nil
  current _ hv := nomatch hv

include h

theorem within {v : Value} (hv : v.FlatElement) : (c.within v).Flat := by
  refine ⟨h.sets, ?_⟩
  rintro _ ⟨⟩
  exact hv

theorem withSet {name : String} {v : Value} (hv : v.Flat) : (c.withSet name v).Flat :=
  ⟨List.forall_mem_append.2 ⟨h.sets, List.forall_mem_singleton.2 hv⟩, h.current⟩

theorem withMember (a : Member) : (c.withMember a).Flat := ⟨h.sets, h.current⟩

theorem set? {name : String} {v : Value} (hv : c.set? name = some v) : v.Flat := by
  obtain ⟨s, hs, rfl⟩ := Option.map_eq_some_iff.1 hv
  exact h.sets s (List.mem_reverse.1 (List.mem_of_find?_eq_some hs))

end Context.Flat

/-! ### Evaluation in flat contexts -/

namespace Provider

section

variable {σ : Type} (p : Provider (ExceptT Fault (StateM σ)))

/-- Evaluation passes flatness on from the context to the value. -/
def flatness : Correspondence (Assurance.stateful σ).simulation p p where
  Contexts c _ := c.Flat
  Valid := Value.Flat
  Element := Value.FlatElement
  within hc hv := hc.within hv
  membersOf _ _ _ _ _ _ := fun _ _ _ _ _ _ => ⟨.object _, id⟩
  valid hv := hv.1
  set := Value.flat_set
  elements hv := hv.elements
  tuple := .tuple
  concat hx hy := ⟨.tuple (List.forall_mem_append.2 ⟨hx.1.components, hy.1.components⟩), id⟩
  number := .number
  text := .text
  boolean := .boolean
  null := .null

/-- An identifier names a calculated member, a named set or a schema object. -/
theorem flat_resolve (i : Identifier) : p.flatness.Related (p.resolve i) (p.resolve i) := by
  intro c _ hc
  rw [Provider.resolve]
  cases c.member? i.uniqueName with
  | some a => exact (Assurance.stateful σ).pure (.object _)
  | none =>
    cases hv : c.set? i.uniqueName with
    | some v => exact (Assurance.stateful σ).pure (Context.Flat.set? hc hv)
    | none =>
      refine (Assurance.stateful σ).bind (Assurance.stateful_trivial _) fun cube _ => ?_
      refine (Assurance.stateful σ).bind (Assurance.stateful_trivial _) fun o _ => ?_
      exact (Assurance.stateful σ).pure (.object o)

theorem flat_currentMember :
    p.flatness.Related Meaning.currentMember Meaning.currentMember := by
  intro c _ hc
  refine (Assurance.stateful σ).pure ?_
  cases h : c.current with
  | none => exact .null
  | some v => exact (Context.Flat.current hc v h).1

/-- **What is evaluated in a flat context is flat.** -/
theorem flat_of_evaluate (e : Expr) {c : Context} (hc : c.Flat) :
    (Assurance.stateful σ).Ensures (p.evaluate e c) Value.Flat := by
  have hrelated := p.flatness.evaluate_self p.flat_resolve e (fun o _ => .object o)
    fun _ => p.flat_currentMember
  exact hrelated (d := c) hc

/-- Definitions keep contexts flat. -/
theorem flat_of_define (e : Expr) {c : Context} (hc : c.Flat) :
    (Assurance.stateful σ).Ensures (p.define c e) Context.Flat := by
  cases e with
  | calculatedMember name value properties =>
    refine (Assurance.stateful σ).bind (Assurance.stateful_trivial _) fun a _ => ?_
    exact (Assurance.stateful σ).pure (hc.withMember a)
  | namedSet name value =>
    refine (Assurance.stateful σ).bind (p.flat_of_evaluate value hc) fun v hv => ?_
    exact (Assurance.stateful σ).pure (hc.withSet hv)
  | _ => exact (Assurance.stateful σ).throw

/-- The contexts in which a statement has its expressions evaluated: that of its cube, those after
its definitions, and those in which a filter tests the elements of a value.  The provider may answer
differently each time it is asked. -/
inductive Scope (s : Select Expr) : Context → Prop where
  | cube {cube : Cube} {before after : σ}
    (h : (p.sourceCube s.source).run before = (.ok cube, after)) : Scope s (.ofCube cube)
  | define {c d : Context} {e : Expr} {before after : σ} (hc : Scope s c)
    (he : e ∈ s.definitions) (h : (p.define c e).run before = (.ok d, after)) : Scope s d
  | within {c : Context} {e : Expr} {v element : Value} {before after : σ} (hc : Scope s c)
    (h : (p.evaluate e c).run before = (.ok v, after)) (helement : element ∈ v.elements) :
    Scope s (c.within element)

variable {p} {s : Select Expr}

/-- The contexts of a statement are flat, by induction on how they are reached. -/
theorem Scope.flat {c : Context} (hc : p.Scope s c) : c.Flat := by
  induction hc with
  | cube _ => exact .ofCube _
  | define _ _ h ih => exact p.flat_of_define _ ih _ _ _ h
  | within _ h helement ih => exact ih.within ((p.flat_of_evaluate _ ih _ _ _ h).elements _ helement)

/-- The axes and the slicer of a statement are evaluated in one of its contexts. -/
theorem Scope.definitions {cube : Cube} {before after : σ}
    (hcube : (p.sourceCube s.source).run before = (.ok cube, after)) :
    (Assurance.stateful σ).Ensures (s.definitions.foldlM p.define (.ofCube cube)) (p.Scope s) := by
  refine (Assurance.stateful σ).foldlM (fun _ => p.Scope s) ?_ (.cube hcube)
  exact fun e he _ c hc _ _ _ h => .define hc he h

end

end Provider

/-! ### Nested braces -/

mutual

/-- The expressions inside braces, however deep they are nested. -/
def Expr.leaves : Expr → List Expr
  | .call name form args =>
    if lowerCase name = "\x7b\x7d" then Expr.leavesOf args else [.call name form args]
  | e => [e]

/-- The expressions inside braces among expressions. -/
def Expr.leavesOf : List Expr → List Expr
  | [] => []
  | e :: es => e.leaves ++ Expr.leavesOf es

end

namespace Provider

section

variable {m : Type → Type} [Monad m] [MonadExcept Fault m] [LawfulMonad m] (p : Provider m)
variable {name : String} {c : Context}

/-- The elements of the values of expressions, one after the other. -/
def elementsOf (es : List Expr) (c : Context) : m (List Value) := do
  return (← es.mapM fun e => p.evaluate e c).flatMap Value.elements

theorem elementsOf_singleton (e : Expr) :
    p.elementsOf [e] c = Value.elements <$> p.evaluate e c := by
  simp [elementsOf]

theorem elementsOf_append (es es' : List Expr) :
    p.elementsOf (es ++ es') c = (do
      let xs ← p.elementsOf es c
      let ys ← p.elementsOf es' c
      return xs ++ ys) := by
  simp [elementsOf]

omit [LawfulMonad m] in
theorem map_meaning_arguments (es : List Expr) :
    (p.arguments es).map Argument.meaning = es.map p.evaluate := by
  induction es with
  | nil => rw [arguments, List.map_nil, List.map_nil]
  | cons e es ih => rw [arguments, List.map_cons, List.map_cons, ih]

omit [LawfulMonad m] in
/-- A call of the braces is no operator and no comparison, whatever its arguments are. -/
theorem apply_braces (hname : lowerCase name = "\x7b\x7d") (text : String)
    (args : List (Argument m)) :
    p.apply name text args = Meaning.braces (args.map Argument.meaning) := by
  have hsymbol : Arithmetic.ofSymbol? "\x7b\x7d" = none := by decide
  have hsign : Meaning.comparison? "\x7b\x7d" = none := rfl
  unfold apply
  match args with
  | [_, _] =>
    simp only [hname, hsymbol, hsign]
    rfl
  | [] | [_] | _ :: _ :: _ :: _ =>
    simp only [hname]
    rfl

/-- The value of braces is the set of the elements of the arguments. -/
theorem evaluate_braces (hname : lowerCase name = "\x7b\x7d") (form : CallForm)
    (args : List Expr) :
    p.evaluate (.call name form args) c = Value.set <$> p.elementsOf args c := by
  rw [evaluate, p.apply_braces hname, p.map_meaning_arguments]
  simp [Meaning.braces, Meaning.all, elementsOf, List.mapM_map, Function.comp_def]

mutual

/-- An expression contributes the elements of its leaves. -/
theorem elementsOf_leaves (e : Expr) : p.elementsOf e.leaves c = p.elementsOf [e] c := by
  match e with
  | .call name form args =>
    rw [Expr.leaves]
    split
    · rename_i hname
      rw [elementsOf_leavesOf args, elementsOf_singleton, evaluate_braces p hname]
      simp
    · rfl
  | .identifier _ | .literal _ | .object _ | .axis _ | .parameter .. | .property ..
  | .calculatedMember .. | .namedSet .. | .select _ | .drillThrough .. =>
    rw [Expr.leaves]
    nofun

/-- Expressions contribute the elements of their leaves, in order. -/
theorem elementsOf_leavesOf (es : List Expr) :
    p.elementsOf (Expr.leavesOf es) c = p.elementsOf es c := by
  match es with
  | [] => rw [Expr.leavesOf]
  | e :: es =>
    rw [Expr.leavesOf, elementsOf_append, elementsOf_leaves e, elementsOf_leavesOf es,
      ← elementsOf_append, List.singleton_append]

end

end

/-! ### The invariant -/

/-- **Sets stay flat.**  The axes and the slicer of a statement are evaluated in one of its
contexts.  In every one of them, whatever the provider answers: the element that a filter is testing
is no set, and no set inside the value of an expression is an element of a set, so that no position
is described by a set either.  Braces have the elements of the values of their leaves, in order and
as often as they occur; so one more pair of braces within braces makes no difference, not even to
faults. -/
theorem sets_flat {σ : Type} (p : Provider (ExceptT Fault (StateM σ))) (s : Select Expr) :
    (∀ cube before after, (p.sourceCube s.source).run before = (.ok cube, after) →
      ∀ before' after' c, (s.definitions.foldlM p.define (.ofCube cube)).run before'
        = (.ok c, after') → p.Scope s c)
    ∧ ∀ c, p.Scope s c →
      (∀ v ∈ c.current, v.Flat ∧ ¬v.IsSet)
      ∧ (∀ e before after v, (p.evaluate e c).run before = (.ok v, after) →
        v.Flat ∧ ∀ element ∈ v.elements, ¬element.IsSet)
      ∧ ∀ name, lowerCase name = "\x7b\x7d" → ∀ form args,
        p.evaluate (.call name form args) c = (do
          let values ← (Expr.leavesOf args).mapM fun e => p.evaluate e c
          return .set (values.flatMap Value.elements))
        ∧ ∀ e name', lowerCase name' = "\x7b\x7d" → ∀ form',
          p.evaluate (.call name form [.call name' form' [e]]) c
            = p.evaluate (.call name form [e]) c := by
  refine ⟨fun cube _ _ hcube => Scope.definitions hcube, fun c hc => ?_⟩
  refine ⟨hc.flat.current, ?_, fun name hname form args => ⟨?_, fun e name' hname' form' => ?_⟩⟩
  · intro e before after v h
    have hv := p.flat_of_evaluate e hc.flat before after v h
    exact ⟨hv, fun element helement => (hv.elements element helement).2⟩
  · rw [p.evaluate_braces hname, ← p.elementsOf_leavesOf]
    simp [elementsOf]
  · rw [p.evaluate_braces hname, p.evaluate_braces hname, p.elementsOf_singleton,
      p.evaluate_braces hname']
    simp

/-- A cube without schema objects. -/
def emptyCube : Cube := ⟨.ofName "Sales" "Sales", "LdCatalog", "LdSchema"⟩

/-- A statement with a named set of two cities. -/
def citiesStatement : Select Expr where
  definitions := [.namedSet ⟨["Cities"]⟩ (textSet ["Graz", "Linz"])]
  axes := []
  source := .object (.cube emptyCube)
  slicer := none

/-- The context in which a filter over these cities tests one of them. -/
def cityContext (city : String) : Context :=
  ((Context.ofCube emptyCube).withSet "[Cities]" (.set [.text "Graz", .text "Linz"])).within
    (.text city)

/-- The tested city and all cities, in two pairs of braces. -/
def citiesInBraces : Expr :=
  .call "\x7b\x7d" .braces [.call "\x7b\x7d" .braces
    [.call "CurrentMember" .property [], .identifier ⟨["Cities"]⟩]]

/-- A filter over the cities tests Linz in a context of the statement.  There that city and all
cities, in two pairs of braces, are a flat set of three texts. -/
theorem sets_flat_cities :
    (bare (ExceptT Fault (StateM Unit))).Scope citiesStatement (cityContext "Linz")
      ∧ ((bare (ExceptT Fault (StateM Unit))).evaluate citiesInBraces (cityContext "Linz")).run ()
        = (.ok (.set [.text "Linz", .text "Graz", .text "Linz"]), ())
      ∧ (Value.set [.text "Linz", .text "Graz", .text "Linz"]).Flat := by
  let p := bare (ExceptT Fault (StateM Unit))
  have hcube : (p.sourceCube citiesStatement.source).run () = (.ok emptyCube, ()) := rfl
  have hdefine : (p.define (.ofCube emptyCube)
      (.namedSet ⟨["Cities"]⟩ (textSet ["Graz", "Linz"]))).run ()
        = (.ok ((Context.ofCube emptyCube).withSet "[Cities]"
          (.set [.text "Graz", .text "Linz"])), ()) := rfl
  have hset : (p.evaluate (.identifier ⟨["Cities"]⟩) ((Context.ofCube emptyCube).withSet "[Cities]"
      (.set [.text "Graz", .text "Linz"]))).run ()
        = (.ok (.set [.text "Graz", .text "Linz"]), ()) := rfl
  have hscope : p.Scope citiesStatement (cityContext "Linz") :=
    .within (.define (.cube hcube) List.mem_cons_self hdefine) hset
      (List.mem_cons_of_mem _ List.mem_cons_self)
  have hvalue : (p.evaluate citiesInBraces (cityContext "Linz")).run ()
      = (.ok (.set [.text "Linz", .text "Graz", .text "Linz"]), ()) := rfl
  obtain ⟨-, hflat, -⟩ := (sets_flat p citiesStatement).2 _ hscope
  exact ⟨hscope, hvalue, (hflat _ _ _ _ hvalue).1⟩

end Provider

end Datacube
