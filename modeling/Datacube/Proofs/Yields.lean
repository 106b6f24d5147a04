import Datacube.Proofs.Transparency

/-!
# Computations with one outcome

A computation that uses a store yields an outcome if it has this outcome whatever the store keeps,
as long as the slots of what it asks for hold nothing but what the engine lists for it.

## Main definitions

* `Session.Yields` — whether a computation has a given outcome.
* `Store.Faithful` — whether the slots of some inquiries hold what the engine lists for them.

## Main results

* `Session.yields_bind`, `Session.yields_mapM` — the rules of sequences and of loops.
* `Store.yields_list` — **what a store answers**, whatever it keeps.
* `Connection.outcome_of_yields` — the outcome of a use of a connection.
-/

namespace Datacube

namespace Session

variable {σ α β : Type}

/-- Whether a computation keeps an invariant of the collections and has the given outcome. -/
def Yields (I : Shelves → Prop) (x : Session σ α) (result : Outcome α) : Prop :=
  ∀ shelves state, I shelves →
    I (x.run (shelves, state)).2.1 ∧ (x.run (shelves, state)).1 = result

variable {I : Shelves → Prop}

theorem yields_pure (a : α) : Yields I (pure a : Session σ α) (.ok a) := fun _ _ hI => ⟨hI, rfl⟩

theorem yields_bind {x : Session σ α} {f : α → Session σ β} {a : α} {result : Outcome β}
    (hx : Yields I x (.ok a)) (hf : Yields I (f a) result) : Yields I (x >>= f) result := by
  intro shelves state hI
  obtain ⟨hI', ha⟩ := hx shelves state hI
  rw [run_bind]
  rcases h : x.run (shelves, state) with ⟨r, shelves', state'⟩
  rw [h] at hI' ha
  subst ha
  exact hf shelves' state' hI'

theorem yields_return {x : Session σ α} {a : α} (hx : Yields I x (.ok a)) (f : α → β) :
    Yields I (do return f (← x)) (.ok (f a)) :=
  yields_bind hx (yields_pure _)

/-- **The rule of loops**: every element has its result. -/
theorem yields_mapM {f : α → Session σ β} {as : List α} {bs : List β}
    (h : List.Forall₂ (fun a b => Yields I (f a) (.ok b)) as bs) :
    Yields I (as.mapM f) (.ok bs) := by
  induction h with
  | nil => exact yields_pure []
  | cons hab _ ih =>
    rw [List.mapM_cons]
    exact yields_bind hab (yields_bind ih (yields_pure _))

end Session

namespace Store

variable {s : Store Unit} {answers : Request → Outcome RowSet} {asks : Inquiry → Prop}

/-- Whether items are what the engine lists for every one of some inquiries with the given slot. -/
def Lists (s : Store Unit) (answers : Request → Outcome RowSet) (asks : Inquiry → Prop)
    (l : Listing) (key : l.Key) (items : List l.Item) : Prop :=
  ∀ q, asks q → q.slot = ⟨l, key⟩ → Engine.answerTo answers l (s.restrictions q) = .ok items

/-- Whether the slots of some inquiries hold nothing but what the engine lists for them. -/
abbrev Faithful (s : Store Unit) (answers : Request → Outcome RowSet) (asks : Inquiry → Prop) :
    Shelves → Prop :=
  Shelves.Keeps (s.Lists answers asks)

/-- **What a store answers** is what the engine lists, if inquiries that share a slot agree. -/
theorem yields_list (hs : s.engine = .ofAnswers answers)
    (hagrees : ∀ q' q, asks q' → asks q → q'.slot = q.slot → q'.Agrees q) {q : Inquiry}
    (hq : asks q) {items : List q.listing.Item} (h : s.answer answers q = .ok items) :
    Session.Yields (s.Faithful answers asks) (s.list q) (.ok items) := by
  intro shelves state hkeeps
  have hkept : ∀ items, s.answer answers q = .ok items →
      s.Lists answers asks q.listing q.key items := by
    intro items hitems q' hq' hslot
    rw [(hagrees q' q hq' hq hslot).restrictions_eq hslot s]
    exact hitems
  obtain ⟨hkeeps', hanswer⟩ := keeps_list hs hkeeps hkept state
  refine ⟨hkeeps', ?_⟩
  rcases hanswer with hanswer | ⟨items', hitems', hanswer⟩
  · exact hanswer.trans h
  · have hsame : s.answer answers q = .ok items' := hitems' q hq rfl
    rw [hanswer, ← h, hsame]

end Store

/-- **The outcome of a use of a connection** that yields one, unless something else was asked for in
the slots of what it asks for. -/
theorem Connection.outcome_of_yields {c : Connection Unit} {answers : Request → Outcome RowSet}
    (hc : c.engine = .ofAnswers answers) (hempty : c.shelves = {})
    {calls : List Call} (hcalls : ∀ call ∈ calls, call.evaluates = false) {asks : Inquiry → Prop}
    (hundisturbed : ∀ q' ∈ Call.recent calls, ∀ q, asks q → q'.slot = q.slot → q'.Agrees q)
    {α : Type} {use : Store Unit → Session Unit α} {result : Outcome α}
    (h : Session.Yields (c.store.Faithful answers asks) (use c.store) result) :
    ((c.after calls).run use).1 = result := by
  have hkeeps : c.store.Faithful answers asks (c.after calls).shelves := by
    refine (keeps_after hc hempty hcalls).mono fun l key items ⟨q', hmem, hslot, hitems⟩ => ?_
    intro q hq hq'
    have hsame : q'.slot = q.slot := hslot.trans hq'.symm
    rw [← (hundisturbed q' hmem q hq hsame).restrictions_eq hsame c.store]
    exact hitems
  have hrun := (h (c.after calls).shelves (c.after calls).state hkeeps).2
  rw [← store_after c calls] at hrun
  exact hrun

end Datacube
