import Datacube.Proofs.Expressions
import Datacube.Proofs.Simulation
import Datacube.Query.Evaluate

/-!
# Corresponding evaluations

Two evaluations correspond if they go through the same expression, or one of them through the
expression with others in the place of its identifiers, and find the same values on their way.  What
corresponds in the contexts, and which condition on values is passed on from the arguments of a call
to its value, differs from one use to the next; the way through the functions and operators is the
same for all of them.

## Main definitions

* `Simulation.Forgives` — whether it does not matter which fault ends a computation.
* `Correspondence` — related contexts, and conditions that the functions pass on.
* `Correspondence.Related`, `Correspondence.Arguments` — meanings and arguments that correspond.

## Main results

* `Correspondence.function`, `Correspondence.apply` — **calls correspond if their arguments do.**
* `Correspondence.evaluate` — **evaluations correspond if those of identifiers do.**
-/

namespace Datacube

variable {m n : Type → Type} [Monad m] [MonadExcept Fault m] [Monad n] [MonadExcept Fault n]

/-- Whether it does not matter which fault ends a computation. -/
def Simulation.Forgives (S : Simulation m n) : Prop :=
  ∀ {α : Type} (e e' : Fault) (Q : α → Prop),
    S.Relates (MonadExcept.throw e) (MonadExcept.throw e') Q

/-- Faults that are the same, or that are forgiven. -/
theorem Simulation.throws {S : Simulation m n} {α : Type} {e e' : Fault} {Q : α → Prop}
    (h : e = e' ∨ S.Forgives) : S.Relates (MonadExcept.throw e) (MonadExcept.throw e') Q := by
  rcases h with rfl | h
  · exact S.throw
  · exact h e e' Q

/-- How the contexts of two evaluations are related, with conditions on values that the functions
and operators pass on. -/
structure Correspondence (S : Simulation m n) (p : Provider m) (q : Provider n) where
  /-- Whether contexts correspond. -/
  Contexts : Context → Context → Prop
  /-- The condition on values. -/
  Valid : Value → Prop
  /-- The condition on the elements of sets. -/
  Element : Value → Prop
  within : ∀ {c d : Context} {v : Value}, Contexts c d → Element v →
    Contexts (c.within v) (d.within v)
  membersOf : ∀ {c d : Context}, Contexts c d → S.Relates c.requireCube d.requireCube fun cube =>
    ∀ o, S.Relates (p.allMembers cube o) (q.allMembers cube o) fun members =>
      ∀ a ∈ members, Element (.object (.member a))
  valid : ∀ {v : Value}, Element v → Valid v
  set : ∀ {values : List Value}, (∀ v ∈ values, Element v) → Valid (.set values)
  elements : ∀ {v : Value}, Valid v → ∀ e ∈ v.elements, Element e
  tuple : ∀ {values : List Value}, (∀ v ∈ values, Valid v) → Valid (.tuple values)
  concat : ∀ {x y : Value}, Element x → Element y → Element (.tuple (x.components ++ y.components))
  number : ∀ x, Valid (.number x)
  text : ∀ s, Valid (.text s)
  boolean : ∀ b, Valid (.boolean b)
  null : Valid .null

/-- Only members are members. -/
theorem Value.eq_of_member? {v : Value} {a : Member} (h : v.member? = some a) :
    v = .object (.member a) := by
  cases v with
  | object o =>
    cases o with
    | member b =>
      cases h
      rfl
    | _ => cases h
  | _ => cases h

theorem Provider.length_arguments (p : Provider m) (es : List Expr) :
    (p.arguments es).length = es.length := by
  induction es with
  | nil => rw [Provider.arguments, List.length_nil, List.length_nil]
  | cons e es ih => rw [Provider.arguments, List.length_cons, List.length_cons, ih]

namespace Correspondence

variable {S : Simulation m n} {p : Provider m} {q : Provider n} (W : Correspondence S p q)

/-- Whether two meanings have the same valid values in contexts that correspond. -/
def Related (f : Meaning m) (g : Meaning n) : Prop :=
  ∀ ⦃c d : Context⦄, W.Contexts c d → S.Relates (f c) (g d) W.Valid

/-- Whether two arguments have meanings that correspond.  Their expressions are only shown in
faults. -/
structure Arguments (a : Argument m) (b : Argument n) : Prop where
  expr : a.expr = b.expr ∨ S.Forgives
  meaning : W.Related a.meaning b.meaning

variable {W} {f₁ g₁ : Meaning m} {f₂ g₂ : Meaning n}

/-- Operations that are not supported correspond if their texts do. -/
theorem related_unsupported {operation operation' : String}
    (h : operation = operation' ∨ S.Forgives) :
    W.Related (fun _ => unsupported operation) fun _ => unsupported operation' :=
  fun _ _ _ => S.throws (h.imp_left (congrArg Fault.unsupportedOperation))

/-! ### Sets and tuples -/

section

variable [LawfulMonad m] [LawfulMonad n]

theorem related_all {fs : List (Meaning m)} {gs : List (Meaning n)}
    (h : List.Forall₂ W.Related fs gs) {c d : Context} (hc : W.Contexts c d) :
    S.Relates (Meaning.all fs c) (Meaning.all gs d) fun values => ∀ v ∈ values, W.Valid v := by
  rw [Meaning.all, Meaning.all]
  induction h with
  | nil => exact S.pure fun _ hv => absurd hv List.not_mem_nil
  | cons hfg _ ih =>
    rw [List.mapM_cons, List.mapM_cons]
    refine S.bind (hfg hc) fun v hv => S.bind ih fun values hvalues => S.pure ?_
    exact List.forall_mem_cons.2 ⟨hv, hvalues⟩

theorem related_braces {fs : List (Meaning m)} {gs : List (Meaning n)}
    (h : List.Forall₂ W.Related fs gs) : W.Related (Meaning.braces fs) (Meaning.braces gs) := by
  refine fun c d hc => S.bind (related_all h hc) fun values hvalues => S.pure ?_
  refine W.set fun e he => ?_
  obtain ⟨v, hv, he⟩ := List.mem_flatMap.1 he
  exact W.elements (hvalues v hv) e he

theorem related_tuple {fs : List (Meaning m)} {gs : List (Meaning n)}
    (h : List.Forall₂ W.Related fs gs) : W.Related (Meaning.tuple fs) (Meaning.tuple gs) :=
  fun _ _ hc => S.bind (related_all h hc) fun _ hvalues => S.pure (W.tuple hvalues)

end

theorem element_pairs {xs ys : List Value} (hx : ∀ v ∈ xs, W.Element v)
    (hy : ∀ v ∈ ys, W.Element v) : ∀ v ∈ Meaning.pairs xs ys, W.Element v := by
  intro v hv
  obtain ⟨x, hxmem, hv⟩ := List.mem_flatMap.1 hv
  obtain ⟨y, hymem, rfl⟩ := List.mem_map.1 hv
  exact W.concat (hx x hxmem) (hy y hymem)

variable (hf : W.Related f₁ f₂) (hg : W.Related g₁ g₂)

include hf hg in
theorem related_crossjoin : W.Related (Meaning.crossjoin f₁ g₁) (Meaning.crossjoin f₂ g₂) := by
  refine fun c d hc => S.bind (hf hc) fun x hx => S.bind (hg hc) fun y hy => S.pure ?_
  exact W.set (element_pairs (W.elements hx) (W.elements hy))

omit W in
theorem keep_subset {α : Type} {test : α → m Bool} {test' : α → n Bool} {as : List α}
    (htest : ∀ a ∈ as, S.Relates (test a) (test' a) fun _ => True) :
    S.Relates (Meaning.keep test as) (Meaning.keep test' as) fun kept => ∀ a ∈ kept, a ∈ as := by
  induction as with
  | nil => exact S.pure fun _ ha => ha
  | cons a as ih =>
    refine S.bind (htest a List.mem_cons_self) fun passes _ => ?_
    refine S.bind (ih fun a ha => htest a (List.mem_cons_of_mem _ ha)) fun kept hkept => ?_
    refine S.pure fun b hb => ?_
    cases passes with
    | false => exact List.mem_cons_of_mem _ (hkept b hb)
    | true =>
      rcases List.mem_cons.1 hb with rfl | hb
      · exact List.mem_cons_self
      · exact List.mem_cons_of_mem _ (hkept b hb)

include hf hg in
theorem related_filter : W.Related (Meaning.filter f₁ g₁) (Meaning.filter f₂ g₂) := by
  refine fun c d hc => S.bind (hf hc) fun v hv => ?_
  refine S.bind (keep_subset fun e he => ?_) fun kept hkept => S.pure ?_
  · exact S.bind (hg (W.within hc (W.elements hv e he))) fun _ _ => S.pure trivial
  · exact W.set fun e he => W.elements hv e (hkept e he)

/-! ### Numbers, texts and truth values -/

include hf hg in
theorem related_arithmetic (op : Arithmetic) :
    W.Related (Meaning.arithmetic op f₁ g₁) (Meaning.arithmetic op f₂ g₂) := by
  refine fun c d hc => S.bind (hf hc) fun x _ => S.bind (hg hc) fun y _ => S.pure ?_
  split
  · exact W.number _
  · exact W.null

include hf in
theorem related_negate : W.Related (Meaning.negate f₁) (Meaning.negate f₂) := by
  refine fun c d hc => S.bind (hf hc) fun x _ => S.pure ?_
  split
  · exact W.number _
  · exact W.null

include hf hg in
theorem related_compare (sign : String) (test : Float → Float → Bool) :
    W.Related (Meaning.compare sign test f₁ g₁) (Meaning.compare sign test f₂ g₂) := by
  refine fun c d hc => S.bind (hf hc) fun x _ => S.bind (hg hc) fun y _ => ?_
  cases x.toNumber? with
  | none => exact S.throw
  | some _ =>
    cases y.toNumber? with
    | none => exact S.throw
    | some _ => exact S.pure (W.boolean _)

include hf hg in
theorem related_and : W.Related (Meaning.and f₁ g₁) (Meaning.and f₂ g₂) := by
  refine fun c d hc => S.bind (hf hc) fun x _ => ?_
  cases x.toBoolean with
  | true => exact S.bind (hg hc) fun y _ => S.pure (W.boolean _)
  | false => exact S.pure (W.boolean _)

include hf in
theorem related_name : W.Related (Meaning.name f₁) (Meaning.name f₂) := by
  refine fun c d hc => S.bind (hf hc) fun x _ => ?_
  cases x.member? with
  | some _ => exact S.pure (W.text _)
  | none => exact S.throw

include hf in
theorem related_cast (target : Expr) :
    W.Related (Meaning.cast f₁ target) (Meaning.cast f₂ target) := by
  intro c d hc
  rw [Meaning.cast, Meaning.cast]
  cases Meaning.castTarget? target with
  | none => exact S.throw
  | some word =>
    cases hword : sameLetters word "NUMERIC" with
    | false =>
      simp only [hword]
      exact S.throw
    | true =>
      simp only [hword]
      refine S.bind (hf hc) fun x _ => ?_
      cases x.toNumber? with
      | some _ => exact S.pure (W.number _)
      | none => exact S.throw

include hf in
/-- Casts to the same target correspond if their values do. -/
theorem related_apply_cast {name : String} (hname : lowerCase name = "cast") (text text' : String)
    (e e' : Expr) {target : Argument m} {target' : Argument n} (h : target.expr = target'.expr) :
    W.Related (p.apply name text [⟨e, f₁⟩, target]) (q.apply name text' [⟨e', f₂⟩, target']) := by
  have hsymbol : Arithmetic.ofSymbol? "cast" = none := by decide
  have hsign : Meaning.comparison? "cast" = none := rfl
  unfold Provider.apply
  simp only [hname, hsymbol, hsign]
  change W.Related (Meaning.cast f₁ target.expr) (Meaning.cast f₂ target'.expr)
  rw [h]
  exact related_cast hf target'.expr

/-! ### Calls -/

theorem related_membersOf {a : Argument m} {b : Argument n} (hab : W.Arguments a b) :
    W.Related (p.membersOf a) (q.membersOf b) := by
  refine fun c d hc => S.bind (W.membersOf hc) fun cube hcube => S.bind (hab.meaning hc) fun v _ => ?_
  cases v with
  | object o =>
    refine S.bind (hcube o) fun members hmembers => S.pure (W.set ?_)
    exact List.forall_mem_map.2 hmembers
  | _ =>
    refine S.throws (hab.expr.imp_left fun h => ?_)
    rw [h]

section

variable [LawfulMonad m] [LawfulMonad n]

/-- **Functions correspond if their arguments do**, one case for each function.  Of the target of a
cast only the expression counts, so that casts are left to `related_apply_cast`. -/
theorem function (key name : String) {text text' : String} {as : List (Argument m)}
    {bs : List (Argument n)} (htext : text = text' ∨ S.Forgives)
    (h : List.Forall₂ W.Arguments as bs)
    (hcast : key = "cast" → as.length ≠ 2)
    (hcurrent : key = "currentmember" → W.Related Meaning.currentMember Meaning.currentMember) :
    W.Related (p.function key name text as) (q.function key name text' bs) := by
  have hmeanings : List.Forall₂ W.Related (as.map Argument.meaning) (bs.map Argument.meaning) := by
    rw [List.forall₂_map_left_iff, List.forall₂_map_right_iff]
    exact h.imp fun _ _ hab => hab.meaning
  have hnone : ∀ operation : String → String,
      W.Related (fun _ => unsupported (operation text)) fun _ => unsupported (operation text') :=
    fun operation => related_unsupported (htext.imp_left (congrArg operation))
  unfold Provider.function
  split
  · exact related_braces hmeanings
  · obtain _ | ⟨hab, _ | _⟩ := h
    exact hab.meaning
  · rename_i hone
    obtain _ | ⟨_, _ | _⟩ := h
    · exact related_tuple hmeanings
    · exact absurd rfl (hone _)
    · exact related_tuple hmeanings
  · obtain _ | ⟨ha, _ | ⟨hb, _ | _⟩⟩ := h
    exact related_crossjoin ha.meaning hb.meaning
  · obtain _ | ⟨ha, _ | _⟩ := h
    exact related_membersOf ha
  · obtain _ | ⟨ha, _ | _⟩ := h
    exact ha.meaning
  · obtain _ | ⟨ha, _ | ⟨_, _ | _⟩⟩ := h
    exact ha.meaning
  · obtain _ | ⟨ha, _ | ⟨hb, _ | _⟩⟩ := h
    exact related_filter ha.meaning hb.meaning
  · exact absurd rfl (hcast rfl)
  · obtain _ | _ := h
    exact hcurrent rfl
  · obtain _ | ⟨_, _ | _⟩ := h
    exact hcurrent rfl
  · obtain _ | ⟨ha, _ | _⟩ := h
    exact related_name ha.meaning
  · obtain _ | ⟨ha, _ | _⟩ := h
    exact related_negate ha.meaning
  · obtain _ | ⟨ha, _ | ⟨hb, _ | _⟩⟩ := h
    exact related_and ha.meaning hb.meaning
  · exact hnone _
  -- no function has the name and takes as many arguments, on either side
  · obtain _ | ⟨_, _ | ⟨_, _ | ⟨_, hrest⟩⟩⟩ := h
    case cons.cons.cons =>
      simp only [List.length_cons, hrest.length_eq]
      exact hnone _
    all_goals
      split
      case h_16 => exact hnone _
      all_goals grind

/-- **Calls correspond if their arguments do.** -/
theorem apply (name : String) {text text' : String} {as : List (Argument m)}
    {bs : List (Argument n)} (htext : text = text' ∨ S.Forgives)
    (h : List.Forall₂ W.Arguments as bs)
    (hcast : lowerCase name = "cast" → as.length ≠ 2)
    (hcurrent : lowerCase name = "currentmember" →
      W.Related Meaning.currentMember Meaning.currentMember) :
    W.Related (p.apply name text as) (q.apply name text' bs) := by
  have hfunction := function (lowerCase name) name htext h hcast hcurrent
  -- operators and comparisons are functions of two arguments
  obtain _ | ⟨ha, _ | ⟨hb, _ | _⟩⟩ := h
  case cons.cons.nil =>
    unfold Provider.apply
    dsimp only
    cases Arithmetic.ofSymbol? (lowerCase name) with
    | some operator => exact related_arithmetic ha.meaning hb.meaning operator
    | none =>
      cases Meaning.comparison? (lowerCase name) with
      | some test => exact related_compare ha.meaning hb.meaning _ test
      | none => exact hfunction
  all_goals exact hfunction

end

/-! ### Expressions -/

/-- An expression is shown alike before and after a substitution that changes nothing. -/
private theorem eq_subst {f : Identifier → Expr} (hf : f = .identifier ∨ S.Forgives) (e : Expr) :
    e = e.subst f ∨ S.Forgives :=
  hf.imp_left fun h => by rw [h, Expr.subst_identifier]

/-- Expressions that stand where they have no value. -/
private theorem related_outOfPlace {e e' : Expr} (h : e = e' ∨ S.Forgives) :
    W.Related (fun _ => Provider.evaluate.outOfPlace e) fun _ => Provider.evaluate.outOfPlace e' :=
  related_unsupported (h.imp_left fun h => by rw [h])

mutual

/-- **Evaluations correspond if those of identifiers do**, and the objects that stand in the
expression are valid.  The one evaluation may go through other expressions in the place of the
identifiers, if it does not matter that faults then show these. -/
theorem evaluate [LawfulMonad m] [LawfulMonad n] {f : Identifier → Expr}
    (hsubst : f = .identifier ∨ S.Forgives)
    (hresolve : ∀ i, W.Related (p.resolve i) (q.evaluate (f i))) (e : Expr)
    (hobjects : ∀ o ∈ e.objects, W.Valid (.object o))
    (hcurrent : "currentmember" ∈ e.calls →
      W.Related Meaning.currentMember Meaning.currentMember) :
    W.Related (p.evaluate e) (q.evaluate (e.subst f)) := by
  match e with
  | .call name form args =>
    rw [Expr.objects] at hobjects
    rw [Expr.calls, List.mem_cons] at hcurrent
    have hargs := arguments hsubst hresolve args hobjects fun h => hcurrent (.inr h)
    have htext : callText name form (Expr.texts args)
        = callText name form (Expr.texts (Expr.keepTarget name args (Expr.substAll f args)))
          ∨ S.Forgives :=
      hsubst.imp_left fun h => by rw [h, Expr.substAll_identifier, Expr.keepTarget_self]
    rw [Expr.subst, Provider.evaluate, Provider.evaluate]
    by_cases hcast : lowerCase name = "cast" ∧ args.length = 2
    · obtain ⟨hname, hlength⟩ := hcast
      obtain ⟨value, target, rfl⟩ := List.length_eq_two.1 hlength
      simp only [Provider.arguments, Expr.substAll, Expr.keepTarget, if_pos hname] at hargs ⊢
      cases hargs with
      | cons hvalue _ => exact related_apply_cast hvalue.meaning hname _ _ _ _ rfl
    · rw [not_and] at hcast
      rw [Expr.keepTarget_of_ne hcast] at htext ⊢
      refine apply name htext hargs (fun hname => ?_) fun hname => hcurrent (.inl hname.symm)
      rw [Provider.length_arguments]
      exact hcast hname
  | .identifier i =>
    rw [Expr.subst, Provider.evaluate]
    exact hresolve i
  | .literal l =>
    rw [Expr.subst, Provider.evaluate, Provider.evaluate]
    intro c d _
    cases l with
    | number x => exact S.pure (W.number _)
    | text s => exact S.pure (W.text _)
    | symbol _ => exact S.throw
    | null => exact S.throw
  | .object o =>
    rw [Expr.subst, Provider.evaluate, Provider.evaluate]
    exact fun c d _ => S.pure (hobjects o (by simp [Expr.objects]))
  | .axis ⟨ordinal, nonEmpty, expr⟩ =>
    rw [Expr.objects, Expr.axisObjects] at hobjects
    rw [Expr.calls, Expr.axisCalls] at hcurrent
    rw [Expr.subst, Expr.substAxis, Provider.evaluate, Provider.evaluate,
      Provider.evaluateAxisSpec, Provider.evaluateAxisSpec]
    exact evaluate hsubst hresolve expr hobjects hcurrent
  | .parameter _ _ default =>
    rw [Expr.objects] at hobjects
    rw [Expr.calls] at hcurrent
    rw [Expr.subst, Provider.evaluate, Provider.evaluate]
    exact evaluate hsubst hresolve default hobjects hcurrent
  | .property _ value =>
    rw [Expr.objects] at hobjects
    rw [Expr.calls] at hcurrent
    rw [Expr.subst, Provider.evaluate, Provider.evaluate]
    exact evaluate hsubst hresolve value hobjects hcurrent
  -- definitions and statements have no value, and what stands in them is shown in the fault only
  | .calculatedMember name value properties =>
    have htext := eq_subst hsubst (.calculatedMember name value properties)
    rw [Expr.subst] at htext ⊢
    rw [Provider.evaluate, Provider.evaluate]
    exact related_outOfPlace htext
  | .namedSet name value =>
    have htext := eq_subst hsubst (.namedSet name value)
    rw [Expr.subst] at htext ⊢
    rw [Provider.evaluate, Provider.evaluate]
    exact related_outOfPlace htext
  | .select s =>
    have htext := eq_subst hsubst (.select s)
    rw [Expr.subst] at htext ⊢
    rw [Provider.evaluate, Provider.evaluate]
    exact related_outOfPlace htext
  | .drillThrough s maxRows firstRowSet columns =>
    have htext := eq_subst hsubst (.drillThrough s maxRows firstRowSet columns)
    rw [Expr.subst] at htext ⊢
    rw [Provider.evaluate, Provider.evaluate]
    exact related_outOfPlace htext

/-- The arguments of a call correspond if the evaluations of identifiers do. -/
theorem arguments [LawfulMonad m] [LawfulMonad n] {f : Identifier → Expr}
    (hsubst : f = .identifier ∨ S.Forgives)
    (hresolve : ∀ i, W.Related (p.resolve i) (q.evaluate (f i))) (es : List Expr)
    (hobjects : ∀ o ∈ Expr.objectsOf es, W.Valid (.object o))
    (hcurrent : "currentmember" ∈ Expr.callsOf es →
      W.Related Meaning.currentMember Meaning.currentMember) :
    List.Forall₂ W.Arguments (p.arguments es) (q.arguments (Expr.substAll f es)) := by
  match es with
  | [] =>
    rw [Expr.substAll, Provider.arguments, Provider.arguments]
    exact .nil
  | e :: es =>
    rw [Expr.objectsOf, List.forall_mem_append] at hobjects
    rw [Expr.callsOf, List.mem_append] at hcurrent
    rw [Expr.substAll, Provider.arguments, Provider.arguments]
    refine .cons ⟨eq_subst hsubst e, ?_⟩ ?_
    · exact evaluate hsubst hresolve e hobjects.1 fun h => hcurrent (.inl h)
    · exact arguments hsubst hresolve es hobjects.2 fun h => hcurrent (.inr h)

end

/-- Evaluations of one expression correspond if those of identifiers do. -/
theorem evaluate_self [LawfulMonad m] [LawfulMonad n]
    (hresolve : ∀ i, W.Related (p.resolve i) (q.resolve i)) (e : Expr)
    (hobjects : ∀ o ∈ e.objects, W.Valid (.object o))
    (hcurrent : "currentmember" ∈ e.calls →
      W.Related Meaning.currentMember Meaning.currentMember) :
    W.Related (p.evaluate e) (q.evaluate e) := by
  have hidentifier : ∀ i, W.Related (p.resolve i) (q.evaluate (.identifier i)) := by
    intro i
    rw [Provider.evaluate]
    exact hresolve i
  have h := evaluate (.inl rfl) hidentifier e hobjects hcurrent
  rwa [Expr.subst_identifier] at h

/-! ### Definitions and axes -/

/-- Calculated members correspond if the evaluations of their operands do, and they are calculated
from valid members. -/
theorem related_calculatedMember {name : Identifier} {value : Expr} {c d : Context}
    (hc : W.Contexts c d) (hlength : c.members.length = d.members.length)
    (hsiblings : S.Relates c.requireCube d.requireCube fun cube => ∀ a,
      S.Relates (p.siblingCount cube a) (q.siblingCount cube a) fun _ => True)
    (hoperands : ∀ operator lhs rhs, Provider.formulaParts? value = some (operator, lhs, rhs) →
      W.Related (p.evaluate lhs) (q.evaluate lhs) ∧ W.Related (p.evaluate rhs) (q.evaluate rhs)) :
    S.Relates (p.calculatedMember name value c) (q.calculatedMember name value d) fun a =>
      ∃ x y operator ordinal, W.Valid (.object (.member x)) ∧ W.Valid (.object (.member y))
        ∧ a = .calculated (.ofName name.uniqueName name.name) x ordinal
          ⟨operator, x.label.uniqueName, y.label.uniqueName⟩ := by
  unfold Provider.calculatedMember
  cases hparts : Provider.formulaParts? value with
  | none => exact S.throw
  | some parts =>
    obtain ⟨operator, lhs, rhs⟩ := parts
    obtain ⟨hlhs, hrhs⟩ := hoperands operator lhs rhs hparts
    refine S.bind (hlhs hc) fun x hx => S.bind (hrhs hc) fun y hy => ?_
    cases ha : x.member? with
    | none => exact S.throw
    | some a =>
      cases hb : y.member? with
      | none => exact S.throw
      | some b =>
        obtain rfl := Value.eq_of_member? ha
        obtain rfl := Value.eq_of_member? hb
        rw [hlength]
        refine S.bind hsiblings fun cube hcube => S.bind (hcube a) fun count _ => S.pure ?_
        exact ⟨a, b, operator, count + d.members.length, hx, hy, rfl⟩

/-- Axes correspond if the evaluations of their expressions do, and valid values describe them. -/
theorem related_evaluateAxis {e e' : Expr} (he : W.Related (p.evaluate e) (q.evaluate e'))
    {c d : Context} (hc : W.Contexts c d) (ordinal : AxisOrdinal) :
    S.Relates (p.evaluateAxis ordinal e c) (q.evaluateAxis ordinal e' d) fun axis =>
      ∃ v, W.Valid v ∧ v.toAxis ordinal = .ok axis := by
  refine S.bind (he hc) fun v hv => ?_
  cases haxis : v.toAxis ordinal with
  | ok axis => exact S.pure ⟨v, hv, haxis⟩
  | error e => exact S.throw

/-- The axes of two statements correspond if the evaluations of their expressions do. -/
theorem related_evaluateAxes {specs specs' : List (AxisSpec Expr)}
    (h : List.Forall₂ (fun a b => a.ordinal = b.ordinal
      ∧ W.Related (p.evaluate a.expr) (q.evaluate b.expr)) specs specs')
    {c d : Context} (hc : W.Contexts c d) (number : Nat) :
    S.Relates (p.evaluateAxes c number specs) (q.evaluateAxes d number specs') fun axes =>
      ∀ axis ∈ axes, ∃ ordinal v, W.Valid v ∧ v.toAxis ordinal = .ok axis := by
  induction h generalizing number with
  | nil => exact S.pure fun _ ha => absurd ha List.not_mem_nil
  | cons hab _ ih =>
    obtain ⟨hordinal, hexpr⟩ := hab
    unfold Provider.evaluateAxes
    rw [hordinal]
    split
    · refine S.bind (related_evaluateAxis hexpr hc _) fun axis haxis => ?_
      refine S.bind (ih _) fun axes haxes => S.pure ?_
      exact List.forall_mem_cons.2 ⟨⟨_, haxis⟩, haxes⟩
    · exact S.throw

end Correspondence

end Datacube
