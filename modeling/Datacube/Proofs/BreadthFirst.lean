import Datacube.Proofs.Assurance
import Datacube.Query.Search
import Mathlib.Logic.Relation

/-!
# Breadth-first searches

A search that works on a queue takes the first object, looks among its children, and appends them
to the queue if none of them answers.  It may expand some objects only.  It visits generation after
generation, so it finds what is found by a search that takes all children of a generation at once.

## Main definitions

* `Explores` — what a search with a queue finds.
* `Grows` — the children of the objects that are expanded.

## Main results

* `Explores.functional` — a search finds one thing only.
* `Explores.named_of_some`, `Explores.eq_none_iff` — **what it means to find something**, and to
  find nothing if every object is expanded.
* `Explores.of_found`, `Explores.of_next` — **a generation of the queue**.
* `Provider.exists_descend` — **searching by generations** finds what is found with a queue, and it
  ends.
-/

namespace Datacube

/-- What a search finds that works on a queue: the first child that is named of the first object
that is expanded and has such a child. -/
inductive Explores {α : Type} (kids : α → List α) (expands named : α → Bool) :
    List α → Option α → Prop where
  | done : Explores kids expands named [] none
  | skip {o : α} {os : List α} {found : Option α} : expands o = false →
    Explores kids expands named os found → Explores kids expands named (o :: os) found
  | found {o k : α} {os : List α} : expands o = true → (kids o).find? named = some k →
    Explores kids expands named (o :: os) (some k)
  | next {o : α} {os : List α} {found : Option α} : expands o = true →
    (kids o).find? named = none → Explores kids expands named (os ++ kids o) found →
    Explores kids expands named (o :: os) found

/-- Whether an object is a child of an object that is expanded. -/
def Grows {α : Type} (kids : α → List α) (expands : α → Bool) (o k : α) : Prop :=
  expands o = true ∧ k ∈ kids o

namespace Explores

section

variable {α : Type} {kids : α → List α} {expands named : α → Bool} {queue : List α}

/-- **A search finds one thing only.** -/
theorem functional {found found' : Option α} (h : Explores kids expands named queue found)
    (h' : Explores kids expands named queue found') : found = found' := by
  induction h with
  | done =>
    cases h'
    rfl
  | skip hskip _ ih =>
    cases h' with
    | skip _ h' => exact ih h'
    | found hexpands | next hexpands => rw [hskip] at hexpands; cases hexpands
  | found hexpands hfind =>
    cases h' with
    | skip hskip => rw [hskip] at hexpands; cases hexpands
    | found _ hfind' => rw [← hfind, hfind']
    | next _ hnone => rw [hfind] at hnone; cases hnone
  | next hexpands hnone _ ih =>
    cases h' with
    | skip hskip => rw [hskip] at hexpands; cases hexpands
    | found _ hfind => rw [hnone] at hfind; cases hfind
    | next _ _ h' => exact ih h'

/-- **What is found is named**, and it is below an object in the queue, along objects that are
expanded. -/
theorem grows_of_some {k : α} (h : Explores kids expands named queue (some k)) :
    named k = true ∧ ∃ o ∈ queue, Relation.TransGen (Grows kids expands) o k := by
  generalize hfound : some k = found at h
  induction h with
  | done => cases hfound
  | skip _ _ ih =>
    obtain ⟨hnamed, o, ho, hbelow⟩ := ih hfound
    exact ⟨hnamed, o, List.mem_cons_of_mem _ ho, hbelow⟩
  | @found o _ _ hexpands hfind =>
    cases hfound
    exact ⟨List.find?_some hfind, o, List.mem_cons_self,
      .single ⟨hexpands, List.mem_of_find?_eq_some hfind⟩⟩
  | @next o os _ hexpands _ _ ih =>
    obtain ⟨hnamed, a, ha, hbelow⟩ := ih hfound
    refine ⟨hnamed, ?_⟩
    rcases List.mem_append.1 ha with ha | ha
    · exact ⟨a, List.mem_cons_of_mem _ ha, hbelow⟩
    · exact ⟨o, List.mem_cons_self, .head ⟨hexpands, ha⟩ hbelow⟩

/-- **What is found is named**, and it is a descendant of an object in the queue. -/
theorem named_of_some {k : α} (h : Explores kids expands named queue (some k)) :
    named k = true ∧ ∃ o ∈ queue, Relation.TransGen (fun o k => k ∈ kids o) o k := by
  obtain ⟨hnamed, o, ho, hbelow⟩ := h.grows_of_some
  exact ⟨hnamed, o, ho, Relation.TransGen.mono (fun _ _ hgrows => hgrows.2) _ _ hbelow⟩

/-- **If nothing is found, no descendant is named**, provided that every object is expanded. -/
theorem unnamed_of_none (hall : ∀ o, expands o = true)
    (h : Explores kids expands named queue none) {o k : α} (ho : o ∈ queue)
    (hbelow : Relation.TransGen (fun o k => k ∈ kids o) o k) : named k = false := by
  generalize hfound : none = found at h
  induction h generalizing o with
  | done => cases ho
  | skip hskip =>
    rw [hall] at hskip
    cases hskip
  | found => cases hfound
  | next _ hnone _ ih =>
    rcases List.mem_cons.1 ho with rfl | ho
    · -- a descendant is a child or lies below one, and the children are in the queue from now on
      cases Relation.TransGen.head'_iff.1 hbelow with
      | intro a ha =>
        obtain ⟨ha, hbelow⟩ := ha
        rcases Relation.reflTransGen_iff_eq_or_transGen.1 hbelow with rfl | hbelow
        · exact Bool.not_eq_true _ ▸ List.find?_eq_none.1 hnone _ ha
        · exact ih (List.mem_append_right _ ha) hbelow hfound
    · exact ih (List.mem_append_left _ ho) hbelow hfound

/-- **Nothing is found if and only if no descendant is named**, provided that every object is
expanded. -/
theorem eq_none_iff (hall : ∀ o, expands o = true) {found : Option α}
    (h : Explores kids expands named queue found) : found = none ↔
      ∀ o ∈ queue, ∀ k, Relation.TransGen (fun o k => k ∈ kids o) o k → named k = false := by
  constructor
  · rintro rfl o ho k hbelow
    exact h.unnamed_of_none hall ho hbelow
  · intro hunnamed
    cases found with
    | none => rfl
    | some k =>
      obtain ⟨hnamed, o, ho, hbelow⟩ := h.named_of_some
      rw [hunnamed o ho k hbelow] at hnamed
      cases hnamed

/-- Nothing is found among objects whose children are among them and not named. -/
theorem eq_none_of_closed {S : α → Prop} (hclosed : ∀ o, S o → ∀ k ∈ kids o, S k ∧ named k = false)
    {found : Option α} (h : Explores kids expands named queue found) (hqueue : ∀ o ∈ queue, S o) :
    found = none := by
  induction h with
  | done => rfl
  | skip _ _ ih => exact ih (List.forall_mem_cons.1 hqueue).2
  | found _ hfind =>
    have hunnamed := (hclosed _ (List.forall_mem_cons.1 hqueue).1 _
      (List.mem_of_find?_eq_some hfind)).2
    rw [List.find?_some hfind] at hunnamed
    cases hunnamed
  | next _ _ _ ih =>
    obtain ⟨ho, hos⟩ := List.forall_mem_cons.1 hqueue
    exact ih (List.forall_mem_append.2 ⟨hos, fun k hk => (hclosed _ ho k hk).1⟩)

/-! ### Generations -/

variable {generation : List α}

theorem of_filter_eq_nil (h : generation.filter expands = []) :
    Explores kids expands named generation none := by
  induction generation with
  | nil => exact .done
  | cons o os ih =>
    have hskip := List.filter_eq_nil_iff.1 h
    exact .skip (Bool.not_eq_true _ ▸ hskip o List.mem_cons_self)
      (ih (List.filter_eq_nil_iff.2 fun a ha => hskip a (List.mem_cons_of_mem _ ha)))

/-- **The first named child of a generation is found**, whatever comes after it in the queue. -/
theorem of_found (later : List α) {k : α}
    (h : ((generation.filter expands).flatMap kids).find? named = some k) :
    Explores kids expands named (generation ++ later) (some k) := by
  induction generation generalizing later with
  | nil => cases h
  | cons o os ih =>
    by_cases hexpands : expands o = true
    · rw [List.filter_cons_of_pos hexpands, List.flatMap_cons, List.find?_append] at h
      cases hfirst : (kids o).find? named with
      | some k' =>
        rw [hfirst] at h
        cases h
        exact .found hexpands hfirst
      | none =>
        rw [hfirst, Option.none_or] at h
        rw [List.cons_append]
        refine .next hexpands hfirst ?_
        rw [List.append_assoc]
        exact ih _ h
    · rw [List.filter_cons_of_neg hexpands] at h
      exact .skip (Bool.not_eq_true _ ▸ hexpands) (ih later h)

/-- **Without a named child in a generation**, its children come next, after what was in the queue
already. -/
theorem of_next (later : List α) {found : Option α}
    (hnone : ((generation.filter expands).flatMap kids).find? named = none)
    (h : Explores kids expands named (later ++ (generation.filter expands).flatMap kids) found) :
    Explores kids expands named (generation ++ later) found := by
  induction generation generalizing later with
  | nil => rwa [List.filter_nil, List.flatMap_nil, List.append_nil] at h
  | cons o os ih =>
    by_cases hexpands : expands o = true
    · rw [List.filter_cons_of_pos hexpands, List.flatMap_cons] at h hnone
      rw [List.find?_append, Option.or_eq_none_iff] at hnone
      rw [List.cons_append]
      refine .next hexpands hnone.1 ?_
      rw [List.append_assoc]
      refine ih _ hnone.2 ?_
      rwa [List.append_assoc]
    · rw [List.filter_cons_of_neg hexpands] at h hnone
      exact .skip (Bool.not_eq_true _ ▸ hexpands) (ih later hnone h)

end

end Explores

/-! ### Searches of providers -/

namespace Provider

variable {p : Provider Outcome} {x : Cube} {kids : SchemaObject → List SchemaObject}
  {segment : String}

/-- The children of several objects are searched together. -/
theorem searchChildren_eq {os : List SchemaObject}
    (hkids : ∀ o ∈ os, p.children x o = .ok (kids o)) : p.searchChildren x segment os
      = .ok (match (os.flatMap kids).find? (·.isNamed segment) with
        | some k => .inl k
        | none => .inr (os.flatMap kids)) := by
  induction os with
  | nil => rfl
  | cons o os ih =>
    obtain ⟨ho, hos⟩ := List.forall_mem_cons.1 hkids
    rw [searchChildren, ho, ih hos, List.flatMap_cons, List.find?_append]
    dsimp only [bind, Except.bind]
    cases (kids o).find? fun k => k.isNamed segment with
    | some k => rfl
    | none =>
      cases (os.flatMap kids).find? fun k => k.isNamed segment <;> rfl

/-- **Searching by generations** ends and finds what is found with a queue, if some weight becomes
smaller from the objects that are expanded to their children. -/
theorem exists_descend {expands : SchemaObject → Bool} {known : SchemaObject → Prop}
    (weight : SchemaObject → Nat) (hkids : ∀ o, known o → p.children x o = .ok (kids o))
    (hdecreases : ∀ o, known o → expands o = true → ∀ k ∈ kids o, known k ∧ weight k < weight o)
    {fuel : Nat} {generation : List SchemaObject}
    (h : ∀ o ∈ generation, known o ∧ (expands o = true → weight o < fuel)) :
    ∃ found, p.descend expands x segment fuel generation = .ok found
      ∧ Explores kids expands (·.isNamed segment) generation found := by
  induction fuel generalizing generation with
  | zero =>
    have hnil : generation.filter expands = [] :=
      List.filter_eq_nil_iff.2 fun o ho hexpands => absurd ((h o ho).2 hexpands) (Nat.not_lt_zero _)
    rw [descend.eq_def]
    dsimp only
    rw [hnil]
    exact ⟨none, rfl, .of_filter_eq_nil hnil⟩
  | succ fuel ih =>
    rw [descend.eq_def]
    dsimp only
    cases hexpanded : generation.filter expands with
    | nil => exact ⟨none, rfl, .of_filter_eq_nil hexpanded⟩
    | cons o os =>
      dsimp only
      have hmem : ∀ a ∈ o :: os, known a ∧ expands a = true ∧ weight a < fuel + 1 := by
        intro a ha
        obtain ⟨ha, hexpands⟩ := List.mem_filter.1 (hexpanded ▸ ha)
        exact ⟨(h a ha).1, hexpands, (h a ha).2 hexpands⟩
      rw [searchChildren_eq fun a ha => hkids a (hmem a ha).1]
      cases hfind : ((o :: os).flatMap kids).find? fun k => k.isNamed segment with
      | some k =>
        rw [← hexpanded] at hfind
        exact ⟨some k, rfl, List.append_nil generation ▸ .of_found [] hfind⟩
      | none =>
        have hnext : ∀ k ∈ (o :: os).flatMap kids,
            known k ∧ (expands k = true → weight k < fuel) := by
          intro k hk
          obtain ⟨a, ha, hk⟩ := List.mem_flatMap.1 hk
          obtain ⟨hknown, hexpands, hweight⟩ := hmem a ha
          obtain ⟨hknown', hless⟩ := hdecreases a hknown hexpands k hk
          exact ⟨hknown', fun _ => by omega⟩
        obtain ⟨found, hdescend, hexplores⟩ := ih hnext
        rw [← hexpanded] at hfind hexplores
        exact ⟨found, hdescend, List.append_nil generation ▸ .of_next [] hfind hexplores⟩

end Provider

end Datacube
