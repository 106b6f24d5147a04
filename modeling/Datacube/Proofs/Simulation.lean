import Datacube.Fault
import Datacube.Proofs.Lists

/-!
# Computations that have the same outcome

Queries are evaluated and planned in any monad with faults.  A simulation relates computations in
two such monads that have the same outcome, and says of its result, if there is one, that it
satisfies a condition.  Two programs that take the same steps are related if their steps are, so
that one walk through the evaluation of a query serves two purposes: what the results are made of,
where both computations are the same, and what does not change the results, where they differ.

## Main definitions

* `Simulation` — a relation that is closed under the operations of two monads with faults.

## Main results

* `Simulation.mapM`, `Simulation.foldlM` — **the rules of loops**.
-/

namespace Datacube

/-- A relation between the computations in two monads with faults. -/
structure Simulation (m n : Type → Type) [Monad m] [MonadExcept Fault m] [Monad n]
    [MonadExcept Fault n] where
  /-- Whether two computations have the same outcome, and every result satisfies a condition. -/
  Relates : {α : Type} → m α → n α → (α → Prop) → Prop
  pure : ∀ {α : Type} {a : α} {Q : α → Prop}, Q a → Relates (Pure.pure a) (Pure.pure a) Q
  bind : ∀ {α β : Type} {x : m α} {y : n α} {f : α → m β} {g : α → n β} {P : α → Prop}
    {Q : β → Prop}, Relates x y P → (∀ a, P a → Relates (f a) (g a) Q) →
      Relates (x >>= f) (y >>= g) Q
  throw : ∀ {α : Type} {e : Fault} {Q : α → Prop},
    Relates (MonadExcept.throw e) (MonadExcept.throw e) Q

namespace Simulation

variable {m n : Type → Type} [Monad m] [MonadExcept Fault m] [LawfulMonad m] [Monad n]
  [MonadExcept Fault n] [LawfulMonad n] (S : Simulation m n)
variable {α β : Type}

/-- A condition may be weakened. -/
theorem mono {x : m α} {y : n α} {P Q : α → Prop} (hx : S.Relates x y P) (h : ∀ a, P a → Q a) :
    S.Relates x y Q := by
  rw [← bind_pure x, ← bind_pure y]
  exact S.bind hx fun a ha => S.pure (h a ha)

/-- The results of computations, changed by a function. -/
theorem map {x : m α} {y : n α} {f : α → β} {P : α → Prop} {Q : β → Prop} (hx : S.Relates x y P)
    (h : ∀ a, P a → Q (f a)) : S.Relates (f <$> x) (f <$> y) Q := by
  rw [← bind_pure_comp, ← bind_pure_comp]
  exact S.bind hx fun a ha => S.pure (h a ha)

/-- **The rule of loops with a list of results**: every element is related to its result. -/
theorem mapM {f : α → m β} {g : α → n β} {R : α → β → Prop} {as : List α}
    (h : ∀ a ∈ as, S.Relates (f a) (g a) (R a)) :
    S.Relates (as.mapM f) (as.mapM g) (List.Forall₂ R as) := by
  induction as with
  | nil => exact S.pure .nil
  | cons a as ih =>
    rw [List.mapM_cons, List.mapM_cons]
    refine S.bind (h a List.mem_cons_self) fun b hb => ?_
    refine S.bind (ih fun a ha => h a (List.mem_cons_of_mem _ ha)) fun bs hbs => ?_
    exact S.pure (.cons hb hbs)

/-- A condition on all results of a loop. -/
theorem mapM_forall {f : α → m β} {g : α → n β} {Q : β → Prop} {as : List α}
    (h : ∀ a ∈ as, S.Relates (f a) (g a) Q) :
    S.Relates (as.mapM f) (as.mapM g) fun bs => ∀ b ∈ bs, Q b := by
  refine S.mono (S.mapM (R := fun _ => Q) h) fun bs hbs => ?_
  induction hbs with
  | nil => nofun
  | cons hb _ ih =>
    exact List.forall_mem_cons.2 ⟨hb, ih fun a ha => h a (List.mem_cons_of_mem _ ha)⟩

omit [LawfulMonad m] [LawfulMonad n] in
private theorem foldlM_after {f : β → α → m β} {g : β → α → n β} {I : List α → β → Prop}
    {as : List α}
    (h : ∀ a ∈ as, ∀ done b, I done b → S.Relates (f b a) (g b a) (I (done ++ [a])))
    {done : List α} {b : β} (hb : I done b) :
    S.Relates (as.foldlM f b) (as.foldlM g b) (I (done ++ as)) := by
  induction as generalizing done b with
  | nil =>
    rw [List.append_nil]
    exact S.pure hb
  | cons a as ih =>
    rw [List.foldlM_cons, List.foldlM_cons]
    refine S.bind (h a List.mem_cons_self done b hb) fun b' hb' => ?_
    rw [List.append_cons]
    exact ih (fun a ha => h a (List.mem_cons_of_mem _ ha)) hb'

omit [LawfulMonad m] [LawfulMonad n] in
/-- **The rule of loops with an accumulator**: an invariant that relates the elements behind to
what has been accumulated. -/
theorem foldlM {f : β → α → m β} {g : β → α → n β} (I : List α → β → Prop) {as : List α} {b : β}
    (h : ∀ a ∈ as, ∀ done b, I done b → S.Relates (f b a) (g b a) (I (done ++ [a])))
    (hb : I [] b) : S.Relates (as.foldlM f b) (as.foldlM g b) (I as) :=
  S.foldlM_after h hb

/-- The result of a computation for an optional value. -/
theorem optionMapM {f : α → m β} {g : α → n β} {Q : Option β → Prop} {o : Option α}
    (hnone : Q none) (hsome : ∀ a ∈ o, S.Relates (f a) (g a) fun b => Q (some b)) :
    S.Relates (o.mapM f) (o.mapM g) Q := by
  cases o with
  | none => exact S.pure hnone
  | some a => exact S.map (hsome a rfl) fun _ hb => hb

end Simulation

end Datacube
