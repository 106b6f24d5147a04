import Datacube.Proofs.Simulation
import Datacube.Store

/-!
# What computations ensure

Queries are evaluated and planned in any monad with faults.  An assurance says of a computation
in such a monad that it keeps the invariant of the monad and that its result, if it has one,
satisfies a condition.  What a program ensures follows from what its steps ensure, so that one
proof about evaluation serves answers that are fixed once for all and answers of a store.

## Main definitions

* `Assurance` — conditions on results that are closed under the operations of a monad with faults.
* `Outcome.assurance` — the assurance of outcomes.
* `Session.Ensures`, `Session.assurance` — the assurance of sessions, with an invariant of the
  collections.

## Main results

* `Assurance.mapM`, `Assurance.foldlM` — **the rules of loops**.
-/

namespace Datacube

/-! ### Outcomes -/

namespace Outcome

variable {α β γ : Type}

/-- A computation in two parts succeeds if and only if both parts do. -/
theorem bind_eq_ok {x : Outcome α} {f : α → Outcome β} {b : β} :
    x >>= f = .ok b ↔ ∃ a, x = .ok a ∧ f a = .ok b := by
  cases x with
  | error e =>
    refine iff_of_false nofun ?_
    rintro ⟨_, h, -⟩
    cases h
  | ok a =>
    constructor
    · intro h
      exact ⟨a, rfl, h⟩
    · rintro ⟨_, h, h'⟩
      cases h
      exact h'

theorem map_eq_ok {x : Outcome α} {f : α → β} {b : β} :
    f <$> x = .ok b ↔ ∃ a, x = .ok a ∧ f a = b := by
  cases x with
  | error e =>
    refine iff_of_false nofun ?_
    rintro ⟨_, h, -⟩
    cases h
  | ok a =>
    constructor
    · intro h
      exact ⟨a, rfl, Except.ok.inj h⟩
    · rintro ⟨_, h, rfl⟩
      cases h
      rfl

theorem pure_eq_ok {a b : α} : (pure a : Outcome α) = .ok b ↔ a = b :=
  ⟨Except.ok.inj, congrArg Except.ok⟩

/-- A loop over a list succeeds if and only if it does so for each element. -/
theorem mapM_eq_ok {f : α → Outcome β} {as : List α} {bs : List β} :
    as.mapM f = .ok bs ↔ List.Forall₂ (fun a b => f a = .ok b) as bs := by
  induction as generalizing bs with
  | nil =>
    constructor
    · intro h
      cases h
      exact .nil
    · intro h
      cases h
      rfl
  | cons a as ih =>
    rw [List.mapM_cons, bind_eq_ok]
    constructor
    · rintro ⟨b, hb, h⟩
      obtain ⟨bs', hbs', h'⟩ := bind_eq_ok.1 h
      cases h'
      exact .cons hb (ih.1 hbs')
    · rintro (_ | ⟨hb, hbs⟩)
      exact ⟨_, hb, bind_eq_ok.2 ⟨_, ih.2 hbs, rfl⟩⟩

/-- The value of an outcome that is no fault. -/
def get : (x : Outcome α) → x.isOk = true → α
  | .ok a, _ => a

theorem eq_ok_get {x : Outcome α} (h : x.isOk = true) : x = .ok (x.get h) := by
  cases x with
  | ok a => rfl
  | error e => cases h

/-- A check of the value that an outcome has decides both that there is one and what holds of it. -/
theorem exists_of_map_decide {x : Outcome α} {P : α → Prop} [DecidablePred P]
    (h : (fun a => decide (P a)) <$> x = .ok true) : ∃ a, x = .ok a ∧ P a := by
  obtain ⟨a, ha, hP⟩ := map_eq_ok.1 h
  exact ⟨a, ha, of_decide_eq_true hP⟩

end Outcome

/-! ### Assurances -/

/-- Conditions on the results of computations in a monad with faults. -/
structure Assurance (m : Type → Type) [Monad m] [MonadExcept Fault m] where
  /-- Whether every result of a computation satisfies a condition. -/
  Ensures : {α : Type} → m α → (α → Prop) → Prop
  pure : ∀ {α : Type} {a : α} {Q : α → Prop}, Q a → Ensures (Pure.pure a) Q
  bind : ∀ {α β : Type} {x : m α} {f : α → m β} {P : α → Prop} {Q : β → Prop},
    Ensures x P → (∀ a, P a → Ensures (f a) Q) → Ensures (x >>= f) Q
  throw : ∀ {α : Type} {e : Fault} {Q : α → Prop}, Ensures (MonadExcept.throw e) Q

namespace Assurance

variable {m : Type → Type} [Monad m] [MonadExcept Fault m] (A : Assurance m)
variable {α β : Type}

/-- An assurance says of a computation what a simulation says of two. -/
def simulation : Simulation m m where
  Relates x _ Q := A.Ensures x Q
  pure := A.pure
  bind := A.bind
  throw := A.throw

/-- **The rule of loops with an accumulator**: an invariant that relates the elements behind to
what has been accumulated. -/
theorem foldlM {f : β → α → m β} (I : List α → β → Prop) {as : List α} {b : β}
    (h : ∀ a ∈ as, ∀ done b, I done b → A.Ensures (f b a) (I (done ++ [a]))) (hb : I [] b) :
    A.Ensures (as.foldlM f b) (I as) :=
  A.simulation.foldlM (g := f) I h hb

variable [LawfulMonad m]

/-- A condition may be weakened. -/
theorem mono {x : m α} {P Q : α → Prop} (hx : A.Ensures x P) (h : ∀ a, P a → Q a) :
    A.Ensures x Q :=
  A.simulation.mono (y := x) hx h

/-- **The rule of loops with a list of results**: every element is related to its result. -/
theorem mapM {f : α → m β} {R : α → β → Prop} {as : List α}
    (h : ∀ a ∈ as, A.Ensures (f a) (R a)) : A.Ensures (as.mapM f) (List.Forall₂ R as) :=
  A.simulation.mapM (g := f) h

end Assurance

/-- The assurance of outcomes: a condition on the result, if there is one. -/
def Outcome.assurance : Assurance Outcome where
  Ensures x Q := ∀ a, x = .ok a → Q a
  pure h _ e := Except.ok.inj e ▸ h
  bind hx hf b e :=
    have ⟨a, ha, hb⟩ := Outcome.bind_eq_ok.1 e
    hf a (hx a ha) b hb
  throw _ e := nomatch e

/-! ### Sessions -/

namespace Session

variable {σ α : Type}

/-- Whether a computation keeps an invariant of the collections and every result of it
satisfies a condition. -/
def Ensures (I : Shelves → Prop) (x : Session σ α) (Q : α → Prop) : Prop :=
  ∀ shelves state, I shelves →
    I (x.run (shelves, state)).2.1 ∧ ∀ a, (x.run (shelves, state)).1 = .ok a → Q a

variable {I : Shelves → Prop}

theorem ensures_pure {a : α} {Q : α → Prop} (h : Q a) : Ensures I (pure a : Session σ α) Q :=
  fun _ _ hI => ⟨hI, fun _ e => Except.ok.inj e ▸ h⟩

theorem ensures_throw {e : Fault} {Q : α → Prop} : Ensures I (throw e : Session σ α) Q :=
  fun _ _ hI => ⟨hI, nofun⟩

theorem run_bind {β : Type} (x : Session σ α) (f : α → Session σ β) (s : Shelves × σ) :
    (x >>= f).run s = match x.run s with
      | (.ok a, s') => (f a).run s'
      | (.error e, s') => (.error e, s') := by
  change (match x.run s with | (r, s') => ExceptT.bindCont f r s') = _
  rcases x.run s with ⟨_ | _, _⟩ <;> rfl

theorem ensures_bind {β : Type} {x : Session σ α} {f : α → Session σ β} {P : α → Prop}
    {Q : β → Prop} (hx : Ensures I x P) (hf : ∀ a, P a → Ensures I (f a) Q) :
    Ensures I (x >>= f) Q := by
  intro shelves state hI
  obtain ⟨hI', hP⟩ := hx shelves state hI
  rw [run_bind]
  rcases h : x.run (shelves, state) with ⟨_ | a, shelves', state'⟩
  · rw [h] at hI'
    exact ⟨hI', nofun⟩
  · rw [h] at hI' hP
    exact hf a (hP a rfl) shelves' state' hI'

/-- The assurance of sessions that keep an invariant of the collections. -/
def assurance (σ : Type) (I : Shelves → Prop) : Assurance (Session σ) where
  Ensures := Ensures I
  pure := ensures_pure
  bind := ensures_bind
  throw := ensures_throw

end Session

end Datacube
