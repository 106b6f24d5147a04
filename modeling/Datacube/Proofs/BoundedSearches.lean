import Datacube.Proofs.BreadthFirst
import Mathlib.Data.Set.Finite.List
import Mathlib.Order.WellFounded

/-!
# Searches that come to an end

A search with a queue keeps no record of the objects that it has visited.  It ends if it finds
something, or if there is no endless descent from the objects in the queue.  It visits generation
after generation, so whether it ends is whether some number of generations is enough.

## Main definitions

* `DiesOut` — whether nothing is expanded from some generation below an object on.
* `exploreTo` — a search through a number of generations.

## Main results

* `exploreTo_of_le` — **more generations** change nothing once a search has come to its end.
* `Explores.ends_iff` — **which searches end**.
* `explores_iff` — a search ends if and only if some number of generations is enough for it.
* `acc_iff_of_finite` — among finitely many objects there is no endless descent if and only if none
  of them is below itself.
-/

namespace Datacube

variable {α : Type} {kids : α → List α} {expands named : α → Bool}

/-! ### Descents -/

/-- Whether no object is expanded in the given generation below an object or later. -/
def DiesOut (kids : α → List α) (expands : α → Bool) : Nat → α → Prop
  | 0, o => expands o = false
  | n + 1, o => ∀ k, Grows kids expands o k → DiesOut kids expands n k

theorem DiesOut.succ {n : Nat} {o : α} (h : DiesOut kids expands n o) :
    DiesOut kids expands (n + 1) o := by
  induction n generalizing o with
  | zero =>
    rintro k ⟨hexpands, -⟩
    rw [DiesOut, hexpands] at h
    cases h
  | succ n ih => exact fun k hk => ih (h k hk)

theorem DiesOut.mono {n m : Nat} (hle : n ≤ m) {o : α} (h : DiesOut kids expands n o) :
    DiesOut kids expands m o :=
  Nat.le_induction h (fun _ _ ih => ih.succ) m hle

/-- Objects below each of which no more is expanded from some generation on, have such a generation
in common. -/
theorem exists_diesOut {os : List α} (h : ∀ o ∈ os, ∃ n, DiesOut kids expands n o) :
    ∃ n, ∀ o ∈ os, DiesOut kids expands n o := by
  induction os with
  | nil => exact ⟨0, nofun⟩
  | cons o os ih =>
    obtain ⟨⟨n, hn⟩, hos⟩ := List.forall_mem_cons.1 h
    obtain ⟨m, hm⟩ := ih hos
    exact ⟨max n m, List.forall_mem_cons.2 ⟨hn.mono (Nat.le_max_left n m), fun a ha =>
      (hm a ha).mono (Nat.le_max_right n m)⟩⟩

/-- Without an endless descent, no more is expanded from some generation on. -/
theorem exists_diesOut_of_acc {o : α} (h : Acc (fun k o => Grows kids expands o k) o) :
    ∃ n, DiesOut kids expands n o := by
  induction h with
  | intro o _ ih =>
    cases hexpands : expands o with
    | false => exact ⟨0, hexpands⟩
    | true =>
      obtain ⟨n, hn⟩ := exists_diesOut fun k hk => ih k ⟨hexpands, hk⟩
      exact ⟨n + 1, fun k hk => hn k hk.2⟩

/-! ### Numbers of generations -/

/-- A search through the given number of generations; there is no answer if these are not all. -/
def exploreTo (kids : α → List α) (expands named : α → Bool) : Nat → List α → Option (Option α)
  | 0, generation => if generation.filter expands = [] then some none else none
  | n + 1, generation =>
    match ((generation.filter expands).flatMap kids).find? named with
    | some k => some (some k)
    | none => exploreTo kids expands named n ((generation.filter expands).flatMap kids)

variable {generation : List α} {found : Option α} {n m : Nat}

theorem exploreTo_of_filter_eq_nil (h : generation.filter expands = []) (n : Nat) :
    exploreTo kids expands named n generation = some none := by
  induction n generalizing generation with
  | zero => rw [exploreTo, if_pos h]
  | succ n ih =>
    rw [exploreTo, h]
    exact ih rfl

/-- **More generations** change nothing. -/
theorem exploreTo_of_le (h : exploreTo kids expands named n generation = some found)
    (hle : n ≤ m) : exploreTo kids expands named m generation = some found := by
  induction n generalizing generation m with
  | zero =>
    rw [exploreTo] at h
    split at h
    · rename_i hnil
      rw [exploreTo_of_filter_eq_nil hnil]
      exact h
    · cases h
  | succ n ih =>
    obtain ⟨m, rfl⟩ := Nat.exists_eq_add_of_le' (Nat.one_le_of_lt hle)
    rw [exploreTo] at h ⊢
    split at h
    · exact h
    · exact ih h (Nat.le_of_succ_le_succ hle)

/-- What is found in some number of generations is what is found with a queue. -/
theorem explores_of_exploreTo (h : exploreTo kids expands named n generation = some found) :
    Explores kids expands named generation found := by
  induction n generalizing generation with
  | zero =>
    rw [exploreTo] at h
    split at h
    · rename_i hnil
      cases h
      exact .of_filter_eq_nil hnil
    · cases h
  | succ n ih =>
    rw [exploreTo] at h
    rw [← List.append_nil generation]
    split at h
    · rename_i k hfind
      cases h
      exact .of_found [] hfind
    · rename_i hnone
      exact .of_next [] hnone (ih h)

/-- As many generations are enough as there are in which something is expanded. -/
theorem exists_exploreTo_of_diesOut (h : ∀ o ∈ generation, DiesOut kids expands n o) :
    ∃ found, exploreTo kids expands named n generation = some found := by
  induction n generalizing generation with
  | zero =>
    refine ⟨none, exploreTo_of_filter_eq_nil (List.filter_eq_nil_iff.2 fun o ho => ?_) 0⟩
    exact Bool.not_eq_true _ ▸ h o ho
  | succ n ih =>
    rw [exploreTo]
    split
    · exact ⟨_, rfl⟩
    · refine ih fun k hk => ?_
      obtain ⟨o, ho, hk⟩ := List.mem_flatMap.1 hk
      obtain ⟨ho, hexpands⟩ := List.mem_filter.1 ho
      exact h o ho k ⟨hexpands, hk⟩

/-- Some number of generations is enough if something is named. -/
theorem exists_exploreTo_of_named {o k : α} (ho : o ∈ generation)
    (hbelow : Relation.TransGen (Grows kids expands) o k) (hnamed : named k = true) :
    ∃ n found, exploreTo kids expands named n generation = some found := by
  have hmem : ∀ {o k}, o ∈ generation → Grows kids expands o k →
      k ∈ (generation.filter expands).flatMap kids := fun ho hgrows =>
    List.mem_flatMap.2 ⟨_, List.mem_filter.2 ⟨ho, hgrows.1⟩, hgrows.2⟩
  induction hbelow using Relation.TransGen.head_induction_on generalizing generation with
  | single hgrows =>
    refine ⟨1, ?_⟩
    rw [exploreTo]
    split
    · exact ⟨_, rfl⟩
    · rename_i hnone
      exact absurd hnamed (List.find?_eq_none.1 hnone _ (hmem ho hgrows))
  | head hgrows _ ih =>
    obtain ⟨n, found, hn⟩ := ih (hmem ho hgrows) fun ho hgrows =>
      List.mem_flatMap.2 ⟨_, List.mem_filter.2 ⟨ho, hgrows.1⟩, hgrows.2⟩
    refine ⟨n + 1, ?_⟩
    rw [exploreTo]
    split
    · exact ⟨_, rfl⟩
    · exact ⟨found, hn⟩

/-! ### Searches with a queue -/

namespace Explores

/-- If nothing is found, there is no endless descent from the queue. -/
theorem acc_of_none {queue : List α} (h : Explores kids expands named queue none) {o : α}
    (ho : o ∈ queue) : Acc (fun k o => Grows kids expands o k) o := by
  generalize hfound : none = found at h
  induction h generalizing o with
  | done => cases ho
  | skip hskip _ ih =>
    rcases List.mem_cons.1 ho with rfl | ho
    · refine ⟨_, fun k hk => ?_⟩
      rw [Grows, hskip] at hk
      cases hk.1
    · exact ih ho hfound
  | found => cases hfound
  | next _ _ _ ih =>
    rcases List.mem_cons.1 ho with rfl | ho
    · exact ⟨_, fun k hk => ih (List.mem_append_right _ hk.2) hfound⟩
    · exact ih (List.mem_append_left _ ho) hfound

/-- What it takes for a number of generations to be enough. -/
private theorem exists_exploreTo (h : (∃ o ∈ generation, ∃ k,
      Relation.TransGen (Grows kids expands) o k ∧ named k = true)
    ∨ ∀ o ∈ generation, Acc (fun k o => Grows kids expands o k) o) :
    ∃ n found, exploreTo kids expands named n generation = some found := by
  rcases h with ⟨o, ho, k, hbelow, hnamed⟩ | hacc
  · exact exists_exploreTo_of_named ho hbelow hnamed
  · obtain ⟨n, hn⟩ := exists_diesOut fun o ho => exists_diesOut_of_acc (hacc o ho)
    exact ⟨n, exists_exploreTo_of_diesOut hn⟩

private theorem named_or_acc (h : Explores kids expands named generation found) :
    (∃ o ∈ generation, ∃ k, Relation.TransGen (Grows kids expands) o k ∧ named k = true)
      ∨ ∀ o ∈ generation, Acc (fun k o => Grows kids expands o k) o := by
  cases found with
  | some k =>
    obtain ⟨hnamed, o, ho, hbelow⟩ := h.grows_of_some
    exact .inl ⟨o, ho, k, hbelow, hnamed⟩
  | none => exact .inr fun o => h.acc_of_none

/-- **Which searches end**: those that find something, and those from whose queue there is no
endless descent. -/
theorem ends_iff : (∃ found, Explores kids expands named generation found) ↔
    (∃ o ∈ generation, ∃ k, Relation.TransGen (Grows kids expands) o k ∧ named k = true)
      ∨ ∀ o ∈ generation, Acc (fun k o => Grows kids expands o k) o := by
  constructor
  · rintro ⟨found, h⟩
    exact h.named_or_acc
  · intro h
    obtain ⟨n, found, hn⟩ := exists_exploreTo h
    exact ⟨found, explores_of_exploreTo hn⟩

end Explores

/-- **A search ends** if and only if some number of generations is enough for it. -/
theorem explores_iff : Explores kids expands named generation found ↔
    ∃ n, exploreTo kids expands named n generation = some found := by
  constructor
  · intro h
    obtain ⟨n, found', hn⟩ := Explores.exists_exploreTo h.named_or_acc
    obtain rfl := h.functional (explores_of_exploreTo hn)
    exact ⟨n, hn⟩
  · rintro ⟨n, hn⟩
    exact explores_of_exploreTo hn

/-! ### Finitely many objects -/

/-- An object from which there is no endless descent is not below itself. -/
private theorem not_below_self_of_acc {r : α → α → Prop} {a : α} (h : Acc (fun b a => r a b) a) :
    ¬ Relation.TransGen r a a := by
  induction h with
  | intro a _ ih =>
    intro hcycle
    obtain ⟨b, hb, hback⟩ := Relation.TransGen.head'_iff.1 hcycle
    exact ih b hb (Relation.TransGen.tail' hback hb)

private theorem acc_of_below {r : α → α → Prop} {a b : α} (h : Acc (fun b a => r a b) a)
    (hbelow : Relation.TransGen r a b) : Acc (fun b a => r a b) b := by
  induction hbelow with
  | single hb => exact h.inv hb
  | tail _ hc ih => exact ih.inv hc

/-- **Among finitely many objects** there is no endless descent if and only if none of them is below
itself. -/
theorem acc_iff_of_finite {r : α → α → Prop} {a : α}
    (hfinite : {b | Relation.TransGen r a b}.Finite) : Acc (fun b a => r a b) a ↔
      ∀ b, Relation.TransGen r a b → ¬ Relation.TransGen r b b := by
  constructor
  · exact fun h b hb => not_below_self_of_acc (acc_of_below h hb)
  · intro hacyclic
    let below (b c : {b | Relation.TransGen r a b}) : Prop := Relation.TransGen r c.1 b.1
    have : Finite {b | Relation.TransGen r a b} := hfinite
    have : IsTrans _ below := ⟨fun _ _ _ hbc hcd => hcd.trans hbc⟩
    have : Std.Irrefl below := ⟨fun b => hacyclic b.1 b.2⟩
    have hwf : WellFounded below := Finite.wellFounded_of_trans_of_irrefl below
    have hacc : ∀ b : {b | Relation.TransGen r a b}, Acc (fun b a => r a b) b.1 := by
      intro b
      induction b using hwf.induction with
      | _ b ih => exact ⟨_, fun c hc => ih ⟨c, b.2.tail hc⟩ (.single hc)⟩
    exact ⟨_, fun b hb => hacc ⟨b, .single hb⟩⟩

end Datacube
