import Datacube.Proofs.NamedSets

/-!
# The element that a filter tests

An expression may refer to the element that the filter around it is testing.  A filter inside the
expression tests elements of its own, but only in its predicate: everywhere else, before and after
the inner filter, the expression refers to the element of the outer one.  So this element may as well
be put in its place, and then it does not matter any more which element is tested around the
expression.

## Main definitions

* `Expr.bindCurrent` — an expression with another one in the place of the tested element.
* `Outcome.sameResult` — whether two outcomes have the same result, or none.

## Main results

* `Provider.apply_congr` — calls other than filters evaluate their arguments in their own context.
* `Provider.evaluate_bindCurrent` — **the tested element may be put in its place**.
-/

namespace Datacube

/-! ### Putting the element in its place -/

/-- The arguments of a call after a replacement in them: the predicate of a filter and the target of
a cast stay as they are. -/
def Expr.keepSecond (name : String) : List Expr → List Expr → List Expr
  | [_, second], [first, second'] =>
    [first, if lowerCase name = "filter" ∨ lowerCase name = "cast" then second else second']
  | _, replaced => replaced

mutual

/-- An expression with another one in the place of the element that the filter around it is testing.
Nothing is replaced in the predicates of its own filters, and in statements and definitions inside
it, which have no value. -/
def Expr.bindCurrent : Expr → Expr → Expr
  | .call name form args, v =>
    if lowerCase name = "currentmember" ∧ args.length < 2 then v
    else .call name form (Expr.keepSecond name args (Expr.bindCurrents args v))
  | .axis a, v => .axis (Expr.bindCurrentAxis a v)
  | .parameter name type default, v => .parameter name type (default.bindCurrent v)
  | .property name value, v => .property name (value.bindCurrent v)
  | .identifier i, _ => .identifier i
  | .literal l, _ => .literal l
  | .object o, _ => .object o
  | .calculatedMember name value properties, _ => .calculatedMember name value properties
  | .namedSet name value, _ => .namedSet name value
  | .select s, _ => .select s
  | .drillThrough s maxRows firstRowSet columns, _ => .drillThrough s maxRows firstRowSet columns

/-- Expressions with another one in the place of the tested element. -/
def Expr.bindCurrents : List Expr → Expr → List Expr
  | [], _ => []
  | e :: es, v => e.bindCurrent v :: Expr.bindCurrents es v

/-- An axis with another expression in the place of the tested element. -/
def Expr.bindCurrentAxis : AxisSpec Expr → Expr → AxisSpec Expr
  | ⟨ordinal, nonEmpty, expr⟩, v => ⟨ordinal, nonEmpty, expr.bindCurrent v⟩

end

namespace Expr

theorem keepSecond_of_ne {name : String} {args replaced : List Expr}
    (h : lowerCase name = "filter" ∨ lowerCase name = "cast" → args.length ≠ 2) :
    keepSecond name args replaced = replaced := by
  unfold keepSecond
  split
  · rw [if_neg fun hname => h hname rfl]
  · rfl

theorem length_bindCurrents (es : List Expr) (v : Expr) :
    (bindCurrents es v).length = es.length := by
  induction es with
  | nil => rw [bindCurrents]
  | cons e es ih => rw [bindCurrents, List.length_cons, List.length_cons, ih]

end Expr

/-! ### Outcomes with the same result -/

namespace Outcome

/-- Whether two outcomes have the same result, which satisfies a condition, or are both faults. -/
def sameResult : Simulation Outcome Outcome where
  Relates x y P := ∀ a, (x = .ok a ↔ y = .ok a) ∧ (x = .ok a → P a)
  pure := by
    intro α a Q hQ b
    refine ⟨Iff.rfl, ?_⟩
    rintro ⟨⟩
    exact hQ
  bind := by
    intro α β x y f g P Q hxy hfg b
    simp only [bind_eq_ok]
    have hstep : ∀ a, x = .ok a → ((f a = .ok b ↔ g a = .ok b) ∧ (f a = .ok b → Q b)) :=
      fun a ha => hfg a ((hxy a).2 ha) b
    refine ⟨⟨?_, ?_⟩, ?_⟩
    · rintro ⟨a, ha, hb⟩
      exact ⟨a, (hxy a).1.1 ha, (hstep a ha).1.1 hb⟩
    · rintro ⟨a, ha, hb⟩
      have hx := (hxy a).1.2 ha
      exact ⟨a, hx, (hstep a hx).1.2 hb⟩
    · rintro ⟨a, ha, hb⟩
      exact (hstep a ha).2 hb
  throw _ := ⟨Iff.rfl, nofun⟩

theorem sameResult_forgives : sameResult.Forgives :=
  fun _ _ _ _ => ⟨iff_of_false nofun nofun, nofun⟩

theorem sameResult_self {α : Type} (x : Outcome α) : sameResult.Relates x x fun _ => True :=
  fun _ => ⟨Iff.rfl, fun _ => trivial⟩

end Outcome

/-! ### Calls -/

section

variable {m : Type → Type}

/-- Whether two meanings have the same value in a context. -/
def Meaning.SameAt (c : Context) (f g : Meaning m) : Prop := f c = g c

/-- Whether two arguments have the same expression, and the same value in a context. -/
structure Argument.SameAt (c : Context) (a b : Argument m) : Prop where
  expr : a.expr = b.expr
  meaning : a.meaning c = b.meaning c

variable [Monad m] [LawfulMonad m] {c : Context} {as bs : List (Argument m)}

theorem Meaning.all_congr (h : List.Forall₂ (Argument.SameAt c) as bs) :
    Meaning.all (as.map Argument.meaning) c = Meaning.all (bs.map Argument.meaning) c := by
  induction h with
  | nil => rfl
  | cons hab _ ih =>
    rw [Meaning.all, Meaning.all] at ih ⊢
    rw [List.map_cons, List.map_cons, List.mapM_cons, List.mapM_cons, hab.meaning, ih]

namespace Provider

variable [MonadExcept Fault m] (p : Provider m)

/-- One case for each function, as for `Correspondence.function`. -/
theorem function_congr (key name text : String) (h : List.Forall₂ (Argument.SameAt c) as bs)
    (hfilter : key = "filter" → as.length ≠ 2) :
    (p.function key name text as).SameAt c (p.function key name text bs) := by
  have hall := Meaning.all_congr h
  unfold Provider.function
  split
  · simp only [Meaning.SameAt, Meaning.braces, hall]
  · obtain _ | ⟨ha, _ | _⟩ := h
    exact ha.meaning
  · rename_i hone
    obtain _ | ⟨ha, _ | _⟩ := h
    · rfl
    · exact absurd rfl (hone _)
    · simp only [Meaning.SameAt, Meaning.tuple, hall]
  · obtain _ | ⟨ha, _ | ⟨hb, _ | _⟩⟩ := h
    simp only [Meaning.SameAt, Meaning.crossjoin, ha.meaning, hb.meaning]
  · obtain _ | ⟨ha, _ | _⟩ := h
    simp only [Meaning.SameAt, Provider.membersOf, ha.meaning, ha.expr]
  · obtain _ | ⟨ha, _ | _⟩ := h
    exact ha.meaning
  · obtain _ | ⟨ha, _ | ⟨_, _ | _⟩⟩ := h
    exact ha.meaning
  · exact absurd rfl (hfilter rfl)
  · obtain _ | ⟨ha, _ | ⟨hb, _ | _⟩⟩ := h
    simp only [Meaning.SameAt, Meaning.cast, ha.meaning, hb.expr]
  · obtain _ | _ := h
    rfl
  · obtain _ | ⟨_, _ | _⟩ := h
    rfl
  · obtain _ | ⟨ha, _ | _⟩ := h
    simp only [Meaning.SameAt, Meaning.name, ha.meaning]
  · obtain _ | ⟨ha, _ | _⟩ := h
    simp only [Meaning.SameAt, Meaning.negate, ha.meaning]
  · obtain _ | ⟨ha, _ | ⟨hb, _ | _⟩⟩ := h
    simp only [Meaning.SameAt, Meaning.and, ha.meaning, hb.meaning]
  · rfl
  -- no function has the name and takes as many arguments, on either side
  · obtain _ | ⟨_, _ | ⟨_, _ | ⟨_, hrest⟩⟩⟩ := h
    case cons.cons.cons =>
      simp only [List.length_cons, hrest.length_eq]
      rfl
    all_goals
      split
      case h_16 => rfl
      all_goals grind

/-- **Calls other than filters** depend on the values of their arguments in their own context. -/
theorem apply_congr (name text : String) (h : List.Forall₂ (Argument.SameAt c) as bs)
    (hfilter : lowerCase name = "filter" → as.length ≠ 2) :
    p.apply name text as c = p.apply name text bs c := by
  have hfunction : _ = _ := p.function_congr (lowerCase name) name text h hfilter
  -- operators and comparisons are functions of two arguments
  obtain _ | ⟨ha, _ | ⟨hb, _ | _⟩⟩ := h
  case cons.cons.nil =>
    unfold Provider.apply
    dsimp only
    cases Arithmetic.ofSymbol? (lowerCase name) with
    | some operator => simp only [Meaning.arithmetic, ha.meaning, hb.meaning]
    | none =>
      cases Meaning.comparison? (lowerCase name) with
      | some test => simp only [Meaning.compare, ha.meaning, hb.meaning]
      | none => exact hfunction
  all_goals exact hfunction

end Provider

end

/-! ### Calls that depend on the tested element -/

section

variable {m : Type → Type} [Monad m] [MonadExcept Fault m] (p : Provider m)

namespace Provider

/-- A call that is neither an operation on two numbers nor a comparison. -/
theorem apply_eq_function {name key : String} (hname : lowerCase name = key)
    (hsymbol : Arithmetic.ofSymbol? key = none) (hsign : Meaning.comparison? key = none)
    (text : String) (args : List (Argument m)) :
    p.apply name text args = p.function key name text args := by
  subst hname
  unfold apply
  split
  · simp only [hsymbol, hsign]
  · rfl

/-- The value of a filter. -/
theorem apply_filter {name : String} (hname : lowerCase name = "filter") (text : String)
    (set predicate : Argument m) :
    p.apply name text [set, predicate] = Meaning.filter set.meaning predicate.meaning := by
  rw [p.apply_eq_function hname (by decide) rfl]
  rfl

/-- A reference to the tested element. -/
theorem apply_currentMember {name : String} (hname : lowerCase name = "currentmember")
    (text : String) {args : List (Argument m)} (hlength : args.length < 2) :
    p.apply name text args = Meaning.currentMember := by
  rw [p.apply_eq_function hname (by decide) rfl]
  match args, hlength with
  | [], _ => rfl
  | [_], _ => rfl

/-- With more arguments, there is no such reference. -/
theorem apply_currentMember_of_le {name : String} (hname : lowerCase name = "currentmember")
    (text : String) {args : List (Argument m)} (hlength : 2 ≤ args.length) :
    ∃ operation, p.apply name text args = fun _ => unsupported operation := by
  rw [p.apply_eq_function hname (by decide) rfl]
  match args, hlength with
  | _ :: _ :: _, _ => exact ⟨_, rfl⟩

end Provider

end

/-! ### Evaluations around other elements -/

namespace Provider

variable (p : Provider Outcome)

/-- Calls correspond in contexts of the same cube if the values of their arguments are fixed. -/
def fixedArguments : Correspondence Outcome.sameResult p p where
  Contexts c d := c.cube = d.cube
  Valid _ := True
  Element _ := True
  within h _ := h
  membersOf h := Outcome.sameResult.mono (Context.relates_requireCube _ h) fun x _ o =>
    Outcome.sameResult.mono (Outcome.sameResult_self (p.allMembers x o)) fun _ _ _ _ => trivial
  valid _ := trivial
  set _ := trivial
  elements _ _ _ := trivial
  tuple _ := trivial
  concat _ _ := trivial
  number _ := trivial
  text _ := trivial
  boolean _ := trivial
  null := trivial

variable {p} {c d : Context}

/-- Whether an argument has the same result in one context as another argument in another one. -/
def SameArgument (c d : Context) (a b : Argument Outcome) : Prop :=
  Outcome.sameResult.Relates (a.meaning c) (b.meaning d) fun _ => True

/-- Calls have the same result in contexts of the same cube if their arguments do. -/
theorem relates_apply (hcube : c.cube = d.cube) {name : String} (text text' : String)
    {as bs : List (Argument Outcome)} (h : List.Forall₂ (SameArgument c d) as bs)
    (hsecond : lowerCase name = "filter" ∨ lowerCase name = "cast" → as.length ≠ 2)
    (hcurrent : lowerCase name ≠ "currentmember") :
    Outcome.sameResult.Relates (p.apply name text as c) (p.apply name text' bs d)
      fun _ => True := by
  -- the values of the arguments are fixed before the contexts are compared
  let fix (c : Context) (a : Argument Outcome) : Argument Outcome := ⟨a.expr, fun _ => a.meaning c⟩
  have hfix : ∀ (c : Context) (as : List (Argument Outcome)),
      List.Forall₂ (Argument.SameAt c) as (as.map (fix c)) := by
    intro c as
    rw [List.forall₂_map_right_iff]
    exact List.forall₂_same.2 fun a _ => ⟨rfl, rfl⟩
  have hfixed : List.Forall₂ p.fixedArguments.Arguments (as.map (fix c)) (bs.map (fix d)) := by
    rw [List.forall₂_map_left_iff, List.forall₂_map_right_iff]
    exact h.imp fun a b hab => ⟨.inr Outcome.sameResult_forgives, fun _ _ _ => hab⟩
  have hlength := h.length_eq
  rw [p.apply_congr name text (hfix c as) fun hname => hsecond (.inl hname),
    p.apply_congr name text' (hfix d bs) fun hname => hlength ▸ hsecond (.inl hname)]
  refine Correspondence.apply name (.inr Outcome.sameResult_forgives) hfixed (fun hname => ?_)
    (fun hname => absurd hname hcurrent) hcube
  rw [List.length_map]
  exact hsecond (.inr hname)

/-- Filters have the same result if their sets do: their predicates are about the same elements. -/
theorem relates_filter (h : c.SameDefinitions d) {f g : Meaning Outcome}
    (hfg : Outcome.sameResult.Relates (f c) (g d) fun _ => True) (predicate : Meaning Outcome) :
    Outcome.sameResult.Relates (Meaning.filter f predicate c) (Meaning.filter g predicate d)
      fun _ => True := by
  have hwithin : c.within = d.within := by
    funext element
    rw [Context.within, Context.within, h.cube, h.members, h.sets]
  refine Outcome.sameResult.bind hfg fun v _ => ?_
  rw [hwithin]
  exact Outcome.sameResult_self _

/-- Casts to the same target have the same result if their values do. -/
theorem relates_cast (hcube : c.cube = d.cube) {name : String} (hname : lowerCase name = "cast")
    (text text' : String) {a b : Argument Outcome} (h : SameArgument c d a b)
    (target : Argument Outcome) :
    Outcome.sameResult.Relates (p.apply name text [a, target] c)
      (p.apply name text' [b, target] d) fun _ => True := by
  have hfilter : lowerCase name = "filter" → ∀ args : List (Argument Outcome), args.length ≠ 2 := by
    rw [hname]
    exact fun h => absurd h (by decide)
  have hfix : ∀ (c : Context) (a : Argument Outcome),
      List.Forall₂ (Argument.SameAt c) [a, target] [⟨a.expr, fun _ => a.meaning c⟩, target] :=
    fun c a => .cons ⟨rfl, rfl⟩ (.cons ⟨rfl, rfl⟩ .nil)
  rw [p.apply_congr name text (hfix c a) fun hname => hfilter hname _,
    p.apply_congr name text' (hfix d b) fun hname => hfilter hname _]
  exact Correspondence.related_apply_cast (W := p.fixedArguments) (fun _ _ _ => h) hname text text'
    a.expr b.expr rfl hcube

/-! ### Expressions -/

/-- An identifier does not refer to the tested element. -/
theorem resolve_congr (h : c.SameDefinitions d) (i : Identifier) :
    p.resolve i c = p.resolve i d := by
  rw [resolve, resolve, h.member?, h.set?, Context.requireCube, Context.requireCube, h.cube]

mutual

/-- **The tested element may be put in its place.**  An expression has a value in a context if and
only if it has it with another expression for the tested element in its place, around which another
element may be tested. -/
theorem evaluate_bindCurrent (h : c.SameDefinitions d) {v : Expr}
    (hv : p.evaluate v d = .ok (c.current.getD .null)) (e : Expr) :
    Outcome.sameResult.Relates (p.evaluate e c) (p.evaluate (e.bindCurrent v) d) fun _ => True := by
  match e with
  | .call name form args =>
    have hargs := arguments_bindCurrents h hv args
    rw [Expr.bindCurrent, evaluate]
    by_cases hcurrent : lowerCase name = "currentmember"
    · by_cases hlength : args.length < 2
      · rw [if_pos ⟨hcurrent, hlength⟩, hv,
          p.apply_currentMember hcurrent _ (p.length_arguments args ▸ hlength)]
        exact Outcome.sameResult_self _
      · -- both are faults
        have hsecond : ¬(lowerCase name = "filter" ∨ lowerCase name = "cast") := by
          rw [hcurrent]
          decide
        rw [if_neg fun h => hlength h.2, evaluate,
          Expr.keepSecond_of_ne fun hname => absurd hname hsecond]
        rw [Nat.not_lt] at hlength
        obtain ⟨_, hfault⟩ := p.apply_currentMember_of_le hcurrent
          (callText name form (Expr.texts args)) (p.length_arguments args ▸ hlength)
        obtain ⟨_, hfault'⟩ := p.apply_currentMember_of_le hcurrent
          (callText name form (Expr.texts (Expr.bindCurrents args v)))
          (hargs.length_eq ▸ p.length_arguments args ▸ hlength)
        rw [hfault, hfault']
        exact Outcome.sameResult_forgives _ _ _
    · rw [if_neg fun h => hcurrent h.1, evaluate]
      by_cases hsecond : (lowerCase name = "filter" ∨ lowerCase name = "cast") ∧ args.length = 2
      · obtain ⟨hname, hlength⟩ := hsecond
        obtain ⟨first, second, rfl⟩ := List.length_eq_two.1 hlength
        simp only [arguments, Expr.bindCurrents, Expr.keepSecond, if_pos hname] at hargs ⊢
        cases hargs with
        | cons hfirst _ =>
          rcases hname with hname | hname
          · rw [p.apply_filter hname, p.apply_filter hname]
            exact relates_filter h hfirst _
          · exact relates_cast h.cube hname _ _ hfirst _
      · rw [not_and] at hsecond
        rw [Expr.keepSecond_of_ne hsecond]
        refine relates_apply h.cube _ _ hargs (fun hname => ?_) hcurrent
        rw [length_arguments]
        exact hsecond hname
  | .identifier i =>
    rw [Expr.bindCurrent, evaluate, resolve_congr h i]
    exact Outcome.sameResult_self _
  | .literal l =>
    rw [Expr.bindCurrent, evaluate]
    exact Outcome.sameResult_self _
  | .object o =>
    rw [Expr.bindCurrent, evaluate]
    exact Outcome.sameResult_self _
  | .axis ⟨ordinal, nonEmpty, expr⟩ =>
    rw [Expr.bindCurrent, Expr.bindCurrentAxis, evaluate, evaluate, evaluateAxisSpec,
      evaluateAxisSpec]
    exact evaluate_bindCurrent h hv expr
  | .parameter _ _ default =>
    rw [Expr.bindCurrent, evaluate, evaluate]
    exact evaluate_bindCurrent h hv default
  | .property _ value =>
    rw [Expr.bindCurrent, evaluate, evaluate]
    exact evaluate_bindCurrent h hv value
  -- definitions and statements have no value
  | .calculatedMember .. | .namedSet .. | .select .. | .drillThrough .. =>
    rw [Expr.bindCurrent, evaluate]
    exact Outcome.sameResult_self _

/-- The arguments of a call have the same results with the tested element in its place. -/
theorem arguments_bindCurrents (h : c.SameDefinitions d) {v : Expr}
    (hv : p.evaluate v d = .ok (c.current.getD .null)) (es : List Expr) :
    List.Forall₂ (SameArgument c d) (p.arguments es) (p.arguments (Expr.bindCurrents es v)) := by
  match es with
  | [] =>
    rw [Expr.bindCurrents, arguments]
    exact .nil
  | e :: es =>
    rw [Expr.bindCurrents, arguments, arguments]
    exact .cons (evaluate_bindCurrent h hv e) (arguments_bindCurrents h hv es)

end

end Provider

end Datacube
