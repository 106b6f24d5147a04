import Datacube.Proofs.Crossjoins
import Datacube.Proofs.KeptProviders
import Datacube.Proofs.TestedElements

/-!
# Filters

A filter keeps the elements of a set for which its predicate is the truth value true when they are
tested.  Two filters, one around the other, keep what a single one keeps whose predicate is the
conjunction: the first predicate is tested on all elements in both cases, and the second one on
those that pass the first, although not in the same order.  A conjunction counts other values as
true that a filter does not, so the predicates are assumed to be truth values unless they are
faults; comparisons and conjunctions are.

## Main definitions

* `Expr.Filters`, `Expr.Conjoins` — whether an expression is a filter, or a conjunction.
* `Expr.IsTest` — whether an expression is a comparison or a conjunction.
* `Outcome.Decides` — whether a predicate is a truth value or a fault for all elements of a set.
* `Outcome.KeepsBoth` — whether a value is the set of the elements that pass two predicates.

## Main results

* `Meaning.filter_eq_ok` — what filters keep.
* `Meaning.filter_filter_eq_ok`, `Meaning.filter_and_eq_ok` — both forms keep the same.
* `Provider.decides_of_isTest` — comparisons and conjunctions are truth values.
* `filters_fuse` — **filters can be fused**.
-/

namespace Datacube

/-! ### Predicates -/

namespace Outcome

/-- Whether an outcome is the truth value true. -/
def holds : Outcome Value → Bool
  | .ok v => v.isTrue
  | .error _ => false

/-- Whether a predicate is a truth value or a fault for all elements of a set. -/
def Decides (set : Outcome Value) (predicate : Value → Outcome Value) : Prop :=
  ∀ x, set = .ok x → ∀ element ∈ x.elements, ∀ v, predicate element = .ok v → ∃ b, v = .boolean b

/-- Whether a value is the set of the elements for which two predicates are true, in their order and
with repetitions.  The first predicate is no fault for any element, and the second one for none of
those that pass the first. -/
def KeepsBoth (set : Outcome Value) (first second : Value → Outcome Value) (v : Value) : Prop :=
  ∃ x, set = .ok x
    ∧ (∀ element ∈ x.elements, (first element).isOk = true)
    ∧ (∀ element ∈ x.elements, (first element).holds = true → (second element).isOk = true)
    ∧ v = .set (x.elements.filter fun element => (first element).holds && (second element).holds)

theorem isOk_eq_true {α : Type} {x : Outcome α} : x.isOk = true ↔ ∃ a, x = .ok a := by
  cases x with
  | ok a => exact iff_of_true rfl ⟨a, rfl⟩
  | error e => exact iff_of_false nofun nofun

end Outcome

namespace Meaning

/-! ### What filters keep -/

/-- The elements that are kept pass the test, and no test is a fault. -/
theorem keep_eq_ok {α : Type} {test : α → Outcome Bool} {passes : α → Bool} {as kept : List α}
    (h : ∀ a ∈ as, ∀ b, test a = .ok b → b = passes a) :
    keep test as = .ok kept ↔ (∀ a ∈ as, (test a).isOk = true) ∧ kept = as.filter passes := by
  induction as generalizing kept with
  | nil =>
    rw [keep, Outcome.pure_eq_ok]
    exact ⟨fun hkept => ⟨nofun, hkept.symm⟩, fun ⟨_, hkept⟩ => hkept.symm⟩
  | cons a as ih =>
    have ih : ∀ kept, keep test as = .ok kept
        ↔ (∀ a ∈ as, (test a).isOk = true) ∧ kept = as.filter passes :=
      fun _ => ih fun b hb => h b (List.mem_cons_of_mem _ hb)
    rw [keep, Outcome.bind_eq_ok, List.forall_mem_cons, Outcome.isOk_eq_true]
    simp only [Outcome.bind_eq_ok, Outcome.pure_eq_ok]
    constructor
    · rintro ⟨b, hb, rest, hrest, rfl⟩
      obtain ⟨hok, rfl⟩ := (ih rest).1 hrest
      obtain rfl := h a List.mem_cons_self b hb
      exact ⟨⟨⟨_, hb⟩, hok⟩, List.filter_cons.symm⟩
    · rintro ⟨⟨⟨b, hb⟩, hok⟩, rfl⟩
      obtain rfl := h a List.mem_cons_self b hb
      exact ⟨_, hb, _, (ih _).2 ⟨hok, rfl⟩, List.filter_cons.symm⟩

variable {set f g : Meaning Outcome} {c : Context} {v : Value}

/-- **What a filter keeps**: the elements for which the predicate is true, if it is no fault for any. -/
theorem filter_eq_ok :
    filter set f c = .ok v ↔ ∃ x, set c = .ok x
      ∧ (∀ element ∈ x.elements, (f (c.within element)).isOk = true)
      ∧ v = .set (x.elements.filter fun element => (f (c.within element)).holds) := by
  have hpasses : ∀ (y : Outcome Value) (b : Bool),
      (do return (← y).isTrue : Outcome Bool) = .ok b → b = y.holds := by
    rintro (_ | _) b ⟨⟩
    rfl
  have hisOk : ∀ y : Outcome Value, (do return (← y).isTrue : Outcome Bool).isOk = y.isOk := by
    rintro (_ | _) <;> rfl
  unfold filter
  simp only [Outcome.bind_eq_ok, Outcome.pure_eq_ok]
  refine exists_congr fun x => and_congr_right fun _ => ?_
  have hkeep : ∀ kept, keep (fun element => do return (← f (c.within element)).isTrue) x.elements
      = .ok kept ↔ _ := fun kept => keep_eq_ok fun element _ => hpasses (f (c.within element))
  simp only [hkeep, hisOk]
  constructor
  · rintro ⟨kept, ⟨hok, rfl⟩, rfl⟩
    exact ⟨hok, rfl⟩
  · rintro ⟨hok, rfl⟩
    exact ⟨_, ⟨hok, rfl⟩, rfl⟩

/-- **A filter around a filter** tests the elements that are left with its own predicate. -/
theorem filter_filter_eq_ok :
    filter (filter set f) g c = .ok v
      ↔ Outcome.KeepsBoth (set c) (fun element => f (c.within element))
        (fun element => g (c.within element)) v := by
  have hkept : ∀ x : Value,
      (x.elements.filter fun element => (f (c.within element)).holds).filter
          (fun element => (g (c.within element)).holds)
        = x.elements.filter fun element =>
          (f (c.within element)).holds && (g (c.within element)).holds := by
    intro x
    rw [List.filter_filter]
    exact List.filter_congr fun _ _ => Bool.and_comm _ _
  simp only [filter_eq_ok]
  constructor
  · rintro ⟨_, ⟨x, hx, hf, rfl⟩, hg, rfl⟩
    simp only [Value.elements_set, List.mem_filter, and_imp] at hg
    exact ⟨x, hx, hf, hg, congrArg Value.set (hkept x)⟩
  · rintro ⟨x, hx, hf, hg, rfl⟩
    refine ⟨_, ⟨x, hx, hf, rfl⟩, ?_, congrArg Value.set (hkept x).symm⟩
    simpa only [Value.elements_set, List.mem_filter, and_imp] using hg

/-! ### Conjunctions of predicates -/

/-- A conjunction of truth values is a fault if its first operand is, or if its second one is and
has to be evaluated. -/
theorem isOk_and (hf : ∀ v, f c = .ok v → ∃ b, v = .boolean b) :
    (and f g c).isOk = true ↔ (f c).isOk = true ∧ ((f c).holds = true → (g c).isOk = true) := by
  unfold and
  cases hx : f c with
  | error e => exact iff_of_false nofun fun h => nomatch h.1
  | ok x =>
    obtain ⟨b, rfl⟩ := hf x hx
    cases b with
    | false => exact iff_of_true rfl ⟨rfl, nofun⟩
    | true =>
      cases g c with
      | error e => exact iff_of_false nofun fun h => nomatch h.2 rfl
      | ok y => exact iff_of_true rfl ⟨rfl, fun _ => rfl⟩

/-- A conjunction of truth values is true if both are. -/
theorem holds_and (hf : ∀ v, f c = .ok v → ∃ b, v = .boolean b)
    (hg : ∀ v, g c = .ok v → ∃ b, v = .boolean b) :
    (and f g c).holds = ((f c).holds && (g c).holds) := by
  unfold and
  cases hx : f c with
  | error e => rfl
  | ok x =>
    obtain ⟨b, rfl⟩ := hf x hx
    cases b with
    | false => rfl
    | true =>
      cases hy : g c with
      | error e => rfl
      | ok y =>
        obtain ⟨b, rfl⟩ := hg y hy
        rfl

/-- **A filter by a conjunction** tests the second predicate on the elements that pass the first. -/
theorem filter_and_eq_ok (hf : Outcome.Decides (set c) fun element => f (c.within element))
    (hg : Outcome.Decides (set c) fun element => g (c.within element)) :
    filter set (and f g) c = .ok v
      ↔ Outcome.KeepsBoth (set c) (fun element => f (c.within element))
        (fun element => g (c.within element)) v := by
  rw [filter_eq_ok]
  refine exists_congr fun x => and_congr_right fun hx => ?_
  have hisOk : (∀ element ∈ x.elements, (and f g (c.within element)).isOk = true)
      ↔ ∀ element ∈ x.elements, (f (c.within element)).isOk = true
        ∧ ((f (c.within element)).holds = true → (g (c.within element)).isOk = true) :=
    forall₂_congr fun element helement => isOk_and (hf x hx element helement)
  have hkept : x.elements.filter (fun element => (and f g (c.within element)).holds)
      = x.elements.filter fun element =>
        (f (c.within element)).holds && (g (c.within element)).holds :=
    List.filter_congr fun element helement =>
      holds_and (hf x hx element helement) (hg x hx element helement)
  rw [hisOk, hkept, forall₂_and, and_assoc]

/-- The value of a comparison is a truth value. -/
theorem boolean_of_compare {sign : String} {test : Float → Float → Bool}
    (h : compare sign test f g c = .ok v) : ∃ b, v = .boolean b := by
  unfold compare at h
  obtain ⟨x, -, h⟩ := Outcome.bind_eq_ok.1 h
  obtain ⟨y, -, h⟩ := Outcome.bind_eq_ok.1 h
  split at h
  · exact ⟨_, (Outcome.pure_eq_ok.1 h).symm⟩
  · nomatch h

/-- The value of a conjunction is a truth value, whatever its operands are. -/
theorem boolean_of_and (h : and f g c = .ok v) : ∃ b, v = .boolean b := by
  unfold and at h
  obtain ⟨x, -, h⟩ := Outcome.bind_eq_ok.1 h
  split at h
  · obtain ⟨y, -, h⟩ := Outcome.bind_eq_ok.1 h
    exact ⟨_, (Outcome.pure_eq_ok.1 h).symm⟩
  · exact ⟨_, (Outcome.pure_eq_ok.1 h).symm⟩

end Meaning

/-! ### Expressions -/

namespace Expr

/-- Whether an expression is a filter with a set and a predicate, however it is written. -/
inductive Filters (set predicate : Expr) : Expr → Prop where
  | call (name : String) (form : CallForm) (h : lowerCase name = "filter") :
    Filters set predicate (.call name form [set, predicate])

/-- Whether an expression is the conjunction of two others, however it is written. -/
inductive Conjoins (lhs rhs : Expr) : Expr → Prop where
  | call (name : String) (form : CallForm) (h : lowerCase name = "and") :
    Conjoins lhs rhs (.call name form [lhs, rhs])

/-- Whether an expression is a comparison or a conjunction. -/
inductive IsTest : Expr → Prop where
  | comparison (name : String) (form : CallForm) (lhs rhs : Expr)
      (h : lowerCase name ∈ ["<", "<=", ">", ">="]) : IsTest (.call name form [lhs, rhs])
  | conjunction {lhs rhs e : Expr} (h : Conjoins lhs rhs e) : IsTest e

end Expr

namespace Provider

section

variable {m : Type → Type} [Monad m] [MonadExcept Fault m] (p : Provider m)

theorem evaluate_filter {set predicate e : Expr} (h : Expr.Filters set predicate e) :
    p.evaluate e = Meaning.filter (p.evaluate set) (p.evaluate predicate) := by
  obtain ⟨name, form, hname⟩ := h
  rw [evaluate, arguments, arguments, arguments, p.apply_filter hname]

theorem evaluate_and {lhs rhs e : Expr} (h : Expr.Conjoins lhs rhs e) :
    p.evaluate e = Meaning.and (p.evaluate lhs) (p.evaluate rhs) := by
  obtain ⟨name, form, hname⟩ := h
  rw [evaluate, arguments, arguments, arguments, p.apply_eq_function hname (by decide) rfl]
  rfl

theorem evaluate_comparison {name : String} (hname : lowerCase name ∈ ["<", "<=", ">", ">="])
    (form : CallForm) (lhs rhs : Expr) :
    ∃ test, p.evaluate (.call name form [lhs, rhs])
      = Meaning.compare (lowerCase name) test (p.evaluate lhs) (p.evaluate rhs) := by
  have hsymbol : ∀ key ∈ ["<", "<=", ">", ">="], Arithmetic.ofSymbol? key = none := by decide
  have hsign : ∀ key ∈ ["<", "<=", ">", ">="], (Meaning.comparison? key).isSome = true := by decide
  obtain ⟨test, htest⟩ := Option.isSome_iff_exists.1 (hsign _ hname)
  refine ⟨test, ?_⟩
  rw [evaluate, arguments, arguments, arguments, apply]
  simp only [hsymbol _ hname, htest]

end

variable (p : Provider Outcome)

/-- Whether a predicate is a truth value or a fault for all elements of a set in a context. -/
def Decides (set predicate : Expr) (c : Context) : Prop :=
  Outcome.Decides (p.evaluate set c) fun element => p.evaluate predicate (c.within element)

/-- Whether a value is the set of the elements that pass two predicates in a context. -/
def KeepsBoth (set first second : Expr) (c : Context) (v : Value) : Prop :=
  Outcome.KeepsBoth (p.evaluate set c) (fun element => p.evaluate first (c.within element))
    (fun element => p.evaluate second (c.within element)) v

variable {p} in
/-- The value of a comparison or a conjunction is a truth value. -/
theorem boolean_of_isTest {e : Expr} (h : e.IsTest) {c : Context} {v : Value}
    (hv : p.evaluate e c = .ok v) : ∃ b, v = .boolean b := by
  cases h with
  | comparison name form lhs rhs hname =>
    obtain ⟨test, htest⟩ := p.evaluate_comparison hname form lhs rhs
    exact Meaning.boolean_of_compare (htest ▸ hv)
  | conjunction hconjoins =>
    rw [p.evaluate_and hconjoins] at hv
    exact Meaning.boolean_of_and hv

/-- **Comparisons and conjunctions** are truth values unless they are faults. -/
theorem decides_of_isTest {e : Expr} (h : e.IsTest) (set : Expr) (c : Context) :
    p.Decides set e c :=
  fun _ _ _ _ _ hv => boolean_of_isTest h hv

section

variable {p} {set first second inner nested both fused : Expr} {c : Context} {v : Value}

theorem evaluate_nested_eq_ok (hinner : Expr.Filters set first inner)
    (hnested : Expr.Filters inner second nested) :
    p.evaluate nested c = .ok v ↔ p.KeepsBoth set first second c v := by
  rw [p.evaluate_filter hnested, p.evaluate_filter hinner]
  exact Meaning.filter_filter_eq_ok

theorem evaluate_fused_eq_ok (hboth : Expr.Conjoins first second both)
    (hfused : Expr.Filters set both fused) (hfirst : p.Decides set first c)
    (hsecond : p.Decides set second c) :
    p.evaluate fused c = .ok v ↔ p.KeepsBoth set first second c v := by
  rw [p.evaluate_filter hfused, p.evaluate_and hboth]
  exact Meaning.filter_and_eq_ok hfirst hsecond

end

end Provider

namespace Connection

variable {σ : Type}

/-- Whether a predicate is a truth value or a fault for all elements of a set, as a connection
evaluates them. -/
def Decides (c : Connection σ) (set predicate : Expr) (context : Context) : Prop :=
  Outcome.Decides (c.run (·.provider.evaluate set context)).1 fun element =>
    (c.run (·.provider.evaluate predicate (context.within element))).1

/-- What a connection finds out about a predicate is so for what it keeps. -/
theorem Decides.kept {c : Connection σ} {set predicate : Expr} {context : Context}
    (h : c.Decides set predicate context) (honly : c.shelves.Only fun _ _ => True) :
    c.shelves.provider.Decides set predicate context := by
  intro x hx element helement v hv
  refine h x ?_ element helement v ?_
  · exact congrArg Prod.fst (run_of_evaluate honly hx)
  · exact congrArg Prod.fst (run_of_evaluate honly hv)

/-- Comparisons and conjunctions are truth values or faults for connections, too. -/
theorem decides_of_isTest {c : Connection σ} (honly : c.shelves.Only fun _ _ => True) {e : Expr}
    (h : e.IsTest) (set : Expr) (context : Context) : c.Decides set e context := by
  intro x _ element _ v hv
  exact Provider.boolean_of_isTest h (evaluate_of_run honly (Prod.ext hv rfl)).2

end Connection

/-- **Filters can be fused.**  In every context, whatever the answers of the provider are, a filter
around a filter and a single filter by the conjunction of both predicates either have the same value
or are both faults, if the predicates are truth values or faults, as all comparisons and
conjunctions are.  The value is the set of the elements for which both predicates are true when they
are tested, in their order and with repetitions.  For a connection to any engine after any uses,
whichever form is evaluated first, the other one then has its value without another request.
Filters inside the set or inside the predicates do not change the element that is tested around
them: it may be put in the place of what refers to it outside of their predicates. -/
theorem filters_fuse (context : Context) {set first second inner nested both fused : Expr}
    (hinner : Expr.Filters set first inner) (hnested : Expr.Filters inner second nested)
    (hboth : Expr.Conjoins first second both) (hfused : Expr.Filters set both fused) :
    (∀ p : Provider Outcome, p.Decides set first context → p.Decides set second context →
      ∀ v, (p.evaluate nested context = .ok v ↔ p.KeepsBoth set first second context v)
        ∧ (p.evaluate fused context = .ok v ↔ p.KeepsBoth set first second context v))
    ∧ (∀ {σ : Type} (config : Config) (engine : Engine σ) (state : σ) (calls : List Call) v
        (after : Connection σ), after.Decides set first context → after.Decides set second context →
        ((Connection.after { config, engine, state } calls).run
            (·.provider.evaluate nested context) = (.ok v, after) →
          after.run (·.provider.evaluate fused context) = (.ok v, after))
        ∧ ((Connection.after { config, engine, state } calls).run
            (·.provider.evaluate fused context) = (.ok v, after) →
          after.run (·.provider.evaluate nested context) = (.ok v, after)))
    ∧ (∀ (p : Provider Outcome) (e : Expr), e.IsTest → p.Decides set e context)
    ∧ ∀ (p : Provider Outcome) (e element : Expr) (c d : Context), c.SameDefinitions d →
      p.evaluate element d = .ok (c.current.getD .null) →
      ∀ v, p.evaluate e c = .ok v ↔ p.evaluate (e.bindCurrent element) d = .ok v := by
  have hforms : ∀ p : Provider Outcome, p.Decides set first context → p.Decides set second context →
      ∀ v, p.evaluate nested context = .ok v ↔ p.evaluate fused context = .ok v := by
    intro p hfirst hsecond v
    rw [Provider.evaluate_nested_eq_ok hinner hnested,
      Provider.evaluate_fused_eq_ok hboth hfused hfirst hsecond]
  refine ⟨fun p hfirst hsecond v => ⟨?_, ?_⟩,
    fun config engine state calls v after hfirst hsecond => ?_,
    fun p e he => p.decides_of_isTest he set context, fun p e element c d hsame helement v => ?_⟩
  · exact Provider.evaluate_nested_eq_ok hinner hnested
  · exact Provider.evaluate_fused_eq_ok hboth hfused hfirst hsecond
  · have honly : (Connection.after { config, engine, state } calls).shelves.Only fun _ _ => True :=
      Connection.only_after (Engine.lists_anything _) Shelves.only_empty calls
    have hkept : after.shelves.Only (fun _ _ => True) →
        ∀ v, after.shelves.provider.evaluate nested context = .ok v
          ↔ after.shelves.provider.evaluate fused context = .ok v :=
      fun honly' => hforms after.shelves.provider (hfirst.kept honly') (hsecond.kept honly')
    constructor
    · exact fun hrun => Connection.evaluate_again honly hrun fun honly' => (hkept honly' v).1
    · exact fun hrun => Connection.evaluate_again honly hrun fun honly' => (hkept honly' v).2
  · exact (Provider.evaluate_bindCurrent hsame helement e v).1

/-- A filter, as a function. -/
def filtered (set predicate : Expr) : Expr := .call "Filter" .function [set, predicate]

theorem filters_filtered (set predicate : Expr) :
    Expr.Filters set predicate (filtered set predicate) :=
  .call "Filter" .function (by decide)

/-- A conjunction, as an operator. -/
def bothOf (lhs rhs : Expr) : Expr := .call "AND" .binary [lhs, rhs]

theorem conjoins_bothOf (lhs rhs : Expr) : Expr.Conjoins lhs rhs (bothOf lhs rhs) :=
  .call "AND" .binary (by decide)

/-- The element that is tested. -/
def tested : Expr := .call "CurrentMember" .function []

/-- Four texts, of which three count as true. -/
def truths : Expr := Provider.textSet ["true", "no", "TRUE", "true"]

/-- The predicate that the tested element counts as true. -/
def countsAsTrue : Expr := bothOf tested (.literal (.text "true"))

/-- The same predicate the other way round. -/
def trueCounts : Expr := bothOf (.literal (.text "true")) tested

/-- Texts and their tests do not depend on the provider. -/
theorem keepsBoth_truths (p : Provider Outcome) : p.KeepsBoth truths countsAsTrue trueCounts {}
    (.set [.text "true", .text "TRUE", .text "true"]) := by
  refine ⟨.set [.text "true", .text "no", .text "TRUE", .text "true"], rfl, ?_, ?_, rfl⟩
  · exact List.forall_mem_cons.2 ⟨rfl, List.forall_mem_cons.2 ⟨rfl, List.forall_mem_cons.2
      ⟨rfl, List.forall_mem_singleton.2 rfl⟩⟩⟩
  · exact List.forall_mem_cons.2 ⟨fun _ => rfl, List.forall_mem_cons.2 ⟨fun _ => rfl,
      List.forall_mem_cons.2 ⟨fun _ => rfl, List.forall_mem_singleton.2 fun _ => rfl⟩⟩⟩

/-- Three of four texts pass both predicates, in both forms, and also for a connection.  The text
that is tested around a filter may be put in its set. -/
theorem filters_fuse_truths :
    (∃ v, v = Value.set [.text "true", .text "TRUE", .text "true"]
      ∧ (Provider.bare Outcome).evaluate (filtered (filtered truths countsAsTrue) trueCounts) {}
        = .ok v
      ∧ (Provider.bare Outcome).evaluate (filtered truths (bothOf countsAsTrue trueCounts)) {}
        = .ok v
      ∧ ∃ after, (salesConnection.after []).run
          (·.provider.evaluate (filtered (filtered truths countsAsTrue) trueCounts) {})
            = (.ok v, after)
        ∧ after.run (·.provider.evaluate (filtered truths (bothOf countsAsTrue trueCounts)) {})
          = (.ok v, after))
    ∧ ∀ v, (Provider.bare Outcome).evaluate (filtered tested countsAsTrue)
          (({} : Context).within (.text "true")) = .ok v
        ↔ (Provider.bare Outcome).evaluate (filtered (.literal (.text "true")) countsAsTrue) {}
          = .ok v := by
  obtain ⟨hforms, hagain, htests, hscope⟩ := filters_fuse {} (filters_filtered truths countsAsTrue)
    (filters_filtered _ trueCounts) (conjoins_bothOf countsAsTrue trueCounts)
    (filters_filtered truths _)
  have hvalues := fun p : Provider Outcome =>
    hforms p (htests p countsAsTrue (.conjunction (conjoins_bothOf _ _)))
      (htests p trueCounts (.conjunction (conjoins_bothOf _ _)))
      (.set [.text "true", .text "TRUE", .text "true"])
  have honly : salesConnection.shelves.Only fun _ _ => True := Shelves.only_empty
  have hrun : (salesConnection.after []).run
      (·.provider.evaluate (filtered (filtered truths countsAsTrue) trueCounts) {}) = _ :=
    Connection.run_of_evaluate honly ((hvalues _).1.2 (keepsBoth_truths _))
  refine ⟨⟨_, rfl, (hvalues _).1.2 (keepsBoth_truths _), (hvalues _).2.2 (keepsBoth_truths _),
    salesConnection, hrun, ?_⟩, ?_⟩
  · exact (hagain salesConnection.config salesConnection.engine () [] _ salesConnection
      (Connection.decides_of_isTest honly (.conjunction (conjoins_bothOf _ _)) _ _)
      (Connection.decides_of_isTest honly (.conjunction (conjoins_bothOf _ _)) _ _)).1 hrun
  · exact hscope (Provider.bare Outcome) (filtered tested countsAsTrue) (.literal (.text "true"))
      (({} : Context).within (.text "true")) {} ⟨rfl, rfl, rfl⟩ rfl

end Datacube
