import Datacube.Proofs.Evaluation
import Datacube.Proofs.NamedSets

/-!
# What a store keeps, as a provider

The lists that a store keeps make up a provider with fixed answers.  Whatever a store evaluates, the
provider of what it keeps afterwards evaluates as well; and whatever this provider evaluates, the
store evaluates without another request.  So what holds of the values that providers with fixed
answers give also holds of a store over any engine, once it has given a value.

## Main definitions

* `Shelves.provider` — the provider of what is kept.
* `Session.settles` — whether the result of a session is the one that what is kept gives.
* `Session.recalls` — whether a session has the result that what is kept gives.

## Main results

* `Store.evaluate_settles`, `Store.evaluate_recalls` — evaluations by a store and by what it keeps.
* `Connection.evaluate_again` — **what follows for fixed answers follows for connections**.
-/

namespace Datacube

/-! ### The provider of what is kept -/

namespace Shelves

variable (kept : Shelves)

/-- The list that is kept as an answer, if there is one. -/
def answer (q : Inquiry) : Outcome (List q.listing.Item) :=
  match kept.items? q.listing q.key with
  | some items => .ok items
  | none => .error (.engine "nothing is kept")

/-- The provider of what is kept. -/
def provider : Provider Outcome where
  cube name := do return (← kept.answer .cubes).find? fun cube => isNamed cube name
  dimensions cube := kept.answer (.dimensions cube)
  hierarchies cube d := kept.answer (.hierarchies cube d)
  levels cube h := kept.answer (.levels cube h)
  members cube l := kept.answer (.members cube l)
  measures cube := kept.answer (.measures cube)

variable {kept}

theorem answer_eq_ok {q : Inquiry} {items : List q.listing.Item} :
    kept.answer q = .ok items ↔ kept.items? q.listing q.key = some items := by
  rw [answer]
  cases kept.items? q.listing q.key with
  | none => exact iff_of_false nofun nofun
  | some found =>
    exact ⟨fun h => congrArg some (Except.ok.inj h), fun h => congrArg _ (Option.some.inj h)⟩

end Shelves

/-! ### Sessions and what they leave -/

namespace Session

variable {σ : Type}

/-- Whether the result of a session is that of an outcome, as long as all that the session leaves is
kept in the end. -/
def settles (σ : Type) (kept : Shelves) : Simulation (Session σ) Outcome where
  Relates x y P := ∀ shelves state a shelves' state', shelves.Extends shelves →
    x.run (shelves, state) = (.ok a, shelves', state') →
      shelves.Extends shelves' ∧ P a ∧ (shelves'.Extends kept → y = .ok a)
  pure := by
    rintro α a Q hQ shelves state _ _ _ hself ⟨⟩
    exact ⟨hself, hQ, fun _ => rfl⟩
  bind := by
    intro α β x y f g P Q hx hf shelves state b shelves₂ state₂ hself h
    obtain ⟨a, ⟨shelves₁, state₁⟩, hrun, h⟩ := run_bind_eq_ok.1 h
    obtain ⟨hextends₁, hP, hy⟩ := hx shelves state a shelves₁ state₁ hself hrun
    obtain ⟨hextends₂, hQ, hg⟩ :=
      hf a hP shelves₁ state₁ b shelves₂ state₂ hextends₁.extends_self h
    refine ⟨hextends₁.trans hextends₂, hQ, fun hkept => ?_⟩
    exact Outcome.bind_eq_ok.2 ⟨a, hy (hextends₂.trans hkept), hg hkept⟩
  throw _ _ _ _ _ _ h := nomatch congrArg Prod.fst h

/-- Whether a session has the result of an outcome, without any change, as long as all that is kept
stays so. -/
def recalls (σ : Type) (kept : Shelves) : Simulation Outcome (Session σ) where
  Relates y x P := ∀ a, y = .ok a →
    P a ∧ ∀ later state, kept.Extends later → x.run (later, state) = (.ok a, later, state)
  pure := by
    rintro α a Q hQ _ ⟨⟩
    exact ⟨hQ, fun _ _ _ => rfl⟩
  bind := by
    intro α β y x g f P Q hy hg b h
    obtain ⟨a, ha, hb⟩ := Outcome.bind_eq_ok.1 h
    obtain ⟨hP, hx⟩ := hy a ha
    obtain ⟨hQ, hf⟩ := hg a hP b hb
    refine ⟨hQ, fun later state hlater => ?_⟩
    exact run_bind_eq_ok.2 ⟨a, _, hx later state hlater, hf later state hlater⟩
  throw := nofun

end Session

/-- Every context belongs to a cube. -/
theorem Context.exists_within (c : Context) : ∃ cube, c.Within cube fun _ => True := by
  refine ⟨c.cube.getD ⟨default, "", ""⟩, fun x hx => ?_, ?_, ?_, ?_⟩
  · rw [hx]
    rfl
  · exact fun _ _ => trivial
  · exact fun _ _ _ _ => trivial
  · exact fun _ _ _ _ => trivial

/-! ### Stores and what they keep -/

namespace Store

variable {σ : Type} (s : Store σ) {kept : Shelves}

private theorem settles_of_eq_list {q : Inquiry} {x : Session σ (List q.listing.Item)}
    (hx : x = s.list q) {P : List q.listing.Item → Prop}
    (hP : Session.Ensures (Shelves.Only fun _ _ => True) x P) :
    (Session.settles σ kept).Relates x (kept.answer q) P := by
  subst hx
  intro shelves state items shelves' state' hself h
  obtain ⟨honly, hresult⟩ := hP shelves state hself.only
  rw [h] at honly hresult
  obtain ⟨hitems, hkeeps⟩ := s.items?_of_run_list h
  refine ⟨⟨hkeeps, honly⟩, hresult items rfl, fun hkept => ?_⟩
  exact Shelves.answer_eq_ok.2 (hkept.items _ _ _ hitems)

private theorem recalls_of_eq_list {q : Inquiry} {x : Session σ (List q.listing.Item)}
    (hx : x = s.list q) {P : List q.listing.Item → Prop}
    (hP : ∀ items, kept.items? q.listing q.key = some items → P items) :
    (Session.recalls σ kept).Relates (kept.answer q) x P := by
  subst hx
  intro items h
  rw [Shelves.answer_eq_ok] at h
  exact ⟨hP items h, fun later state hlater => s.run_list_of_items (hlater.items _ _ _ h) state⟩

/-- What a store lists for a cube is what it keeps in the end. -/
theorem matches_settles (kept : Shelves) (cube : Cube) :
    s.provider.Matches (Session.settles σ kept) kept.provider cube fun _ => True := by
  have hoffers := offers (s := s) s.engine.lists_anything
  let S := Session.settles σ kept
  constructor
  case dimensions =>
    exact S.mono (s.settles_of_eq_list (q := .dimensions cube) (s.dimensions_eq_list cube)
      (hoffers.dimensions cube)) fun _ _ _ _ => trivial
  case hierarchies =>
    exact fun d => S.mono (s.settles_of_eq_list (q := .hierarchies cube d)
      (s.hierarchies_eq_list cube d) (hoffers.hierarchies cube d)) fun _ _ _ _ => trivial
  case levels =>
    exact fun h => S.mono (s.settles_of_eq_list (q := .levels cube h) (s.levels_eq_list cube h)
      (hoffers.levels cube h)) fun _ _ _ _ => trivial
  case members =>
    exact fun l => S.mono (s.settles_of_eq_list (q := .members cube l) (s.members_eq_list cube l)
      (hoffers.members cube l)) fun _ _ _ _ => trivial
  case measures =>
    exact S.mono (s.settles_of_eq_list (q := .measures cube) (s.measures_eq_list cube)
      (hoffers.measures cube)) fun _ hall a ha => ⟨trivial, (hall a ha).2⟩
  case generations => rfl

/-- What is kept is what a store lists for a cube from then on. -/
theorem matches_recalls (hkept : kept.Only fun _ _ => True) (cube : Cube) :
    kept.provider.Matches (Session.recalls σ kept) s.provider cube fun _ => True where
  dimensions := s.recalls_of_eq_list (q := .dimensions cube) (s.dimensions_eq_list cube)
    fun _ _ _ _ => trivial
  hierarchies d := s.recalls_of_eq_list (q := .hierarchies cube d) (s.hierarchies_eq_list cube d)
    fun _ _ _ _ => trivial
  levels h := s.recalls_of_eq_list (q := .levels cube h) (s.levels_eq_list cube h)
    fun _ _ _ _ => trivial
  members l := s.recalls_of_eq_list (q := .members cube l) (s.members_eq_list cube l)
    fun _ _ _ _ => trivial
  measures := s.recalls_of_eq_list (q := .measures cube) (s.measures_eq_list cube)
    fun items hitems a ha => ⟨trivial, (hkept.measures _ items hitems a ha).2⟩
  generations := rfl

/-- **What a store evaluates** is evaluated by the provider of what it keeps afterwards. -/
theorem evaluate_settles (kept : Shelves) (e : Expr) (c : Context) :
    (Session.settles σ kept).Relates (s.provider.evaluate e c) (kept.provider.evaluate e c)
      fun _ => True := by
  obtain ⟨cube, hc⟩ := c.exists_within
  exact (Session.settles σ kept).mono
    ((s.matches_settles kept cube).evaluate e (fun _ _ => trivial) c hc) fun _ _ => trivial

/-- **What the provider of what is kept evaluates** is evaluated by the store without a request. -/
theorem evaluate_recalls (hkept : kept.Only fun _ _ => True) (e : Expr) (c : Context) :
    (Session.recalls σ kept).Relates (kept.provider.evaluate e c) (s.provider.evaluate e c)
      fun _ => True := by
  obtain ⟨cube, hc⟩ := c.exists_within
  exact (Session.recalls σ kept).mono
    ((s.matches_recalls hkept cube).evaluate e (fun _ _ => trivial) c hc) fun _ _ => trivial

end Store

/-! ### Connections -/

namespace Connection

variable {σ : Type} {c after : Connection σ}

/-- What a connection has evaluated, the provider of what it keeps then evaluates as well. -/
theorem evaluate_of_run {e : Expr} {context : Context} {v : Value}
    (honly : c.shelves.Only fun _ _ => True)
    (h : c.run (·.provider.evaluate e context) = (.ok v, after)) :
    after.shelves.Only (fun _ _ => True)
      ∧ after.shelves.provider.evaluate e context = .ok v := by
  obtain ⟨result, shelves, state, hrun⟩ : ∃ result shelves state,
      (c.store.provider.evaluate e context).run (c.shelves, c.state) = (result, shelves, state) :=
    ⟨_, _, _, rfl⟩
  rw [run, hrun] at h
  obtain ⟨rfl, rfl⟩ := Prod.mk.inj h
  obtain ⟨hextends, -, hsettled⟩ := c.store.evaluate_settles shelves e context c.shelves c.state v
    shelves state honly.extends_self hrun
  exact ⟨hextends.only, hsettled hextends.extends_self⟩

/-- What the provider of what is kept evaluates, the connection evaluates without a change. -/
theorem run_of_evaluate {e : Expr} {context : Context} {v : Value}
    (honly : c.shelves.Only fun _ _ => True)
    (h : c.shelves.provider.evaluate e context = .ok v) :
    c.run (·.provider.evaluate e context) = (.ok v, c) := by
  have hrun : (c.store.provider.evaluate e context).run (c.shelves, c.state) = _ :=
    (c.store.evaluate_recalls honly e context v h).2 c.shelves c.state honly.extends_self
  rw [run, hrun]

/-- **What follows for fixed answers follows for connections**: if an expression has its value with
what is kept, and another one then has it too, then the connection gives this value again. -/
theorem evaluate_again {e e' : Expr} {context : Context} {v : Value}
    (honly : c.shelves.Only fun _ _ => True)
    (h : c.run (·.provider.evaluate e context) = (.ok v, after))
    (hsame : after.shelves.Only (fun _ _ => True) →
      after.shelves.provider.evaluate e context = .ok v →
      after.shelves.provider.evaluate e' context = .ok v) :
    after.run (·.provider.evaluate e' context) = (.ok v, after) := by
  obtain ⟨honly', hvalue⟩ := evaluate_of_run honly h
  exact run_of_evaluate honly' (hsame honly' hvalue)

end Connection

end Datacube
