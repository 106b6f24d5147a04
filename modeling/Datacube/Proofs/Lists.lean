import Mathlib.Data.List.Forall2

/-!
# Lookups and related lists

Objects are looked up in lists by their names, and lists are made from lists element by element.
What is found has the key that was asked for, and it is the only one if keys tell elements apart.

## Main results

* `find?_key_eq_some_iff` — **lookups by keys** that tell the elements of a list apart.
* `filter_flatMap_of_forall`, `filter_flatMap_of_key` — **lists made of parts** that are kept whole, or
  that a key tells apart.
* `exists_left_of_forall₂`, `exists_right_of_forall₂` — the partner of an element in a related list.
* `forall_mem_iff_of_forall₂`, `exists_mem_iff_of_forall₂` — what holds of all elements or of some of
  them, in related lists.
* `exists_forall₂` — elements that can be related make up lists that can be.
-/

namespace Datacube

/-! ### Lookups by keys -/

/-- **The only element that satisfies a predicate is found.** -/
theorem find?_eq_some_of_unique {α : Type} {p : α → Bool} {as : List α} {a : α} (ha : a ∈ as)
    (hp : p a = true) (hunique : ∀ b ∈ as, p b = true → b = a) : as.find? p = some a := by
  cases h : as.find? p with
  | none => exact absurd hp (List.find?_eq_none.1 h a ha)
  | some b => rw [hunique b (List.mem_of_find?_eq_some h) (List.find?_some h)]

section

variable {α β : Type} [BEq β] [LawfulBEq β] {key : α → β} {as : List α} {a : α} {b : β}

theorem mem_of_find?_key (h : (as.find? fun x => key x == b) = some a) : a ∈ as ∧ key a = b := by
  have hkey := List.find?_some (p := fun x => key x == b) h
  exact ⟨List.mem_of_find?_eq_some h, eq_of_beq hkey⟩

/-- Something is found if there is an element with the key. -/
theorem exists_find?_key (ha : a ∈ as) (hkey : key a = b) :
    ∃ x, (as.find? fun x => key x == b) = some x := by
  cases h : as.find? fun x => key x == b with
  | none =>
    have hnot := List.find?_eq_none.1 h a ha
    exact absurd (beq_iff_eq.2 hkey) hnot
  | some x => exact ⟨x, rfl⟩

/-- **The only element with a key is found.** -/
theorem find?_key_eq_some_iff (hunique : ∀ x ∈ as, ∀ y ∈ as, key x = key y → x = y) :
    (as.find? fun x => key x == b) = some a ↔ a ∈ as ∧ key a = b := by
  constructor
  · exact mem_of_find?_key
  · rintro ⟨ha, hkey⟩
    refine find?_eq_some_of_unique ha (beq_iff_eq.2 hkey) fun x hx hxkey => ?_
    exact hunique x hx a ha ((eq_of_beq hxkey).trans hkey.symm)

/-- Lists with the same keys, which tell their elements apart, are the same if all lookups are. -/
theorem eq_of_find?_key {bs : List α} (hkeys : as.map key = bs.map key)
    (hnodup : (as.map key).Nodup)
    (hfind : ∀ b, (as.find? fun x => key x == b) = bs.find? fun x => key x == b) : as = bs := by
  induction as generalizing bs with
  | nil => exact (List.map_eq_nil_iff.1 hkeys.symm).symm
  | cons a as ih =>
    cases bs with
    | nil => cases hkeys
    | cons b bs =>
      obtain ⟨hkey, hrest⟩ := List.cons.inj hkeys
      obtain ⟨hnot, hnodup'⟩ := List.nodup_cons.1 hnodup
      have hab : some a = some b := by simpa [List.find?_cons, ← hkey] using hfind (key a)
      obtain rfl := Option.some.inj hab
      rw [ih hrest hnodup' fun k => ?_]
      by_cases hk : key a = k
      · -- the key is that of the first element, so it is found in neither rest
        have hnone : ∀ cs : List α, key a ∉ cs.map key → (cs.find? fun x => key x == k) = none := by
          intro cs hcs
          refine List.find?_eq_none.2 fun x hx hkx => hcs ?_
          rw [hk, ← eq_of_beq hkx]
          exact List.mem_map_of_mem hx
        rw [hnone as hnot, hnone bs (hrest ▸ hnot)]
      · simpa [List.find?_cons, hk] using hfind k

end

/-- What is found in a part of a list is what is found in the whole list, if it is in the part and
nothing else could be found. -/
theorem find?_eq_filter_of_unique {α : Type} {p q : α → Bool} {as bs : List α}
    (hunique : ∀ a ∈ bs, ∀ b ∈ bs, p a = true → p b = true → a = b)
    (hmem : ∀ a, a ∈ as ↔ a ∈ bs ∧ q a = true) : as.find? p = (bs.find? p).filter q := by
  cases hb : bs.find? p with
  | none =>
    refine List.find?_eq_none.2 fun a ha => ?_
    exact List.find?_eq_none.1 hb a ((hmem a).1 ha).1
  | some b =>
    have hbs := List.mem_of_find?_eq_some hb
    have hpb := List.find?_some hb
    cases ha : as.find? p with
    | none =>
      have hq : ¬ q b = true := fun hq => List.find?_eq_none.1 ha b ((hmem b).2 ⟨hbs, hq⟩) hpb
      rw [Option.filter_some, if_neg hq]
    | some a =>
      obtain ⟨hmema, hqa⟩ := (hmem a).1 (List.mem_of_find?_eq_some ha)
      obtain rfl := hunique a hmema b hbs (List.find?_some ha) hpb
      rw [Option.filter_some, if_pos hqa]

/-- Lists with the same images are the same if elements with the same image are. -/
theorem eq_of_map_eq {α β : Type} {f : α → β} {as bs : List α}
    (hf : ∀ a ∈ as, ∀ b ∈ bs, f a = f b → a = b) (h : as.map f = bs.map f) : as = bs := by
  induction as generalizing bs with
  | nil => exact (List.map_eq_nil_iff.1 h.symm).symm
  | cons a as ih =>
    cases bs with
    | nil => cases h
    | cons b bs =>
      obtain ⟨hhead, hrest⟩ := List.cons.inj h
      obtain rfl := hf a List.mem_cons_self b List.mem_cons_self hhead
      have hrest' : as = bs := by
        refine ih (fun a ha b hb => ?_) hrest
        exact hf a (List.mem_cons_of_mem _ ha) b (List.mem_cons_of_mem _ hb)
      rw [hrest']

/-! ### Lists in parts -/

/-- A filter finds the same in a list and in a part of it that has everything that is found. -/
theorem filter_eq_of_sublist {α : Type} {p : α → Bool} {as bs : List α} (hsub : as.Sublist bs)
    (hnodup : bs.Nodup) (h : ∀ b ∈ bs, p b = true → b ∈ as) : as.filter p = bs.filter p := by
  induction hsub with
  | slnil => rfl
  | @cons as bs b hsub ih =>
    obtain ⟨hnot, hnodup⟩ := List.nodup_cons.1 hnodup
    have hp : ¬ p b = true := fun hp => hnot (hsub.subset (h b List.mem_cons_self hp))
    rw [List.filter_cons_of_neg hp]
    exact ih hnodup fun a ha => h a (List.mem_cons_of_mem _ ha)
  | @cons_cons as bs b hsub ih =>
    obtain ⟨hnot, hnodup⟩ := List.nodup_cons.1 hnodup
    rw [List.filter_cons, List.filter_cons, ih hnodup]
    intro a ha hp
    rcases List.mem_cons.1 (h a (List.mem_cons_of_mem _ ha) hp) with rfl | hmem
    · exact absurd ha hnot
    · exact hmem

/-- **Parts of which a filter keeps all or nothing.** -/
theorem filter_flatMap_of_forall {α β : Type} {f : α → List β} {p : β → Bool} {q : α → Bool}
    {as : List α} (h : ∀ a ∈ as, ∀ b ∈ f a, p b = q a) :
    (as.flatMap f).filter p = (as.filter q).flatMap f := by
  induction as with
  | nil => rfl
  | cons a as ih =>
    obtain ⟨hhead, hrest⟩ := List.forall_mem_cons.1 h
    rw [List.flatMap_cons, List.filter_append, ih hrest, List.filter_congr hhead]
    cases hq : q a with
    | false =>
      rw [List.filter_false, List.nil_append, List.filter_cons_of_neg (hq ▸ Bool.false_ne_true)]
    | true => rw [List.filter_true, List.filter_cons_of_pos hq, List.flatMap_cons]

/-- **The part of the only element with a key** is what is left of all parts. -/
theorem filter_flatMap_of_key {α β γ : Type} {key : α → γ} {f : α → List β} {p : β → Bool}
    {as : List α} {a : α} (hnodup : (as.map key).Nodup) (ha : a ∈ as)
    (hself : ∀ x ∈ f a, p x = true)
    (hother : ∀ b ∈ as, key b ≠ key a → ∀ x ∈ f b, p x = false) :
    (as.flatMap f).filter p = f a := by
  induction as with
  | nil => cases ha
  | cons b as ih =>
    obtain ⟨hnot, hnodup⟩ := List.nodup_cons.1 hnodup
    rw [List.flatMap_cons, List.filter_append]
    rcases List.mem_cons.1 ha with rfl | ha
    · have hrest : (as.flatMap f).filter p = [] := by
        refine List.filter_eq_nil_iff.2 fun x hx => ?_
        obtain ⟨b', hb', hx⟩ := List.mem_flatMap.1 hx
        have hne : key b' ≠ key a := fun heq => hnot (heq ▸ List.mem_map_of_mem hb')
        rw [hother b' (List.mem_cons_of_mem _ hb') hne x hx]
        exact Bool.false_ne_true
      rw [hrest, List.append_nil, List.filter_eq_self.2 hself]
    · have hne : key b ≠ key a := fun heq => hnot (heq ▸ List.mem_map_of_mem ha)
      have hnone : (f b).filter p = [] := by
        refine List.filter_eq_nil_iff.2 fun x hx => ?_
        rw [hother b List.mem_cons_self hne x hx]
        exact Bool.false_ne_true
      rw [hnone, List.nil_append]
      exact ih hnodup ha fun b' hb' => hother b' (List.mem_cons_of_mem _ hb')

/-! ### Related lists -/

theorem exists_left_of_forall₂ {α β : Type} {R : α → β → Prop} {as : List α} {bs : List β}
    (h : List.Forall₂ R as bs) {b : β} (hb : b ∈ bs) : ∃ a ∈ as, R a b := by
  induction h with
  | nil => cases hb
  | cons hab _ ih =>
    rcases List.mem_cons.1 hb with rfl | hb
    · exact ⟨_, List.mem_cons_self, hab⟩
    · obtain ⟨a, ha, hab⟩ := ih hb
      exact ⟨a, List.mem_cons_of_mem _ ha, hab⟩

theorem exists_right_of_forall₂ {α β : Type} {R : α → β → Prop} {as : List α} {bs : List β}
    (h : List.Forall₂ R as bs) {a : α} (ha : a ∈ as) : ∃ b ∈ bs, R a b :=
  exists_left_of_forall₂ h.flip ha

theorem forall_mem_iff_of_forall₂ {α β : Type} {P : α → Prop} {Q : β → Prop} {as : List α}
    {bs : List β} (h : List.Forall₂ (fun a b => P a ↔ Q b) as bs) :
    (∀ a ∈ as, P a) ↔ ∀ b ∈ bs, Q b := by
  induction h with
  | nil => exact ⟨fun _ _ h => absurd h List.not_mem_nil, fun _ _ h => absurd h List.not_mem_nil⟩
  | cons hab _ ih => rw [List.forall_mem_cons, List.forall_mem_cons, hab, ih]

theorem exists_mem_iff_of_forall₂ {α β : Type} {P : α → Prop} {Q : β → Prop} {as : List α}
    {bs : List β} (h : List.Forall₂ (fun a b => P a ↔ Q b) as bs) :
    (∃ a ∈ as, P a) ↔ ∃ b ∈ bs, Q b := by
  constructor
  · rintro ⟨a, ha, hP⟩
    obtain ⟨b, hb, hiff⟩ := exists_right_of_forall₂ h ha
    exact ⟨b, hb, hiff.1 hP⟩
  · rintro ⟨b, hb, hQ⟩
    obtain ⟨a, ha, hiff⟩ := exists_left_of_forall₂ h hb
    exact ⟨a, ha, hiff.2 hQ⟩

theorem forall₂_trans {α β γ : Type} {R : α → β → Prop} {S : β → γ → Prop} {T : α → γ → Prop}
    (h : ∀ a b c, R a b → S b c → T a c) {as : List α} {bs : List β} {cs : List γ}
    (hR : List.Forall₂ R as bs) (hS : List.Forall₂ S bs cs) : List.Forall₂ T as cs := by
  induction hR generalizing cs with
  | nil =>
    cases hS
    exact .nil
  | cons hab _ ih =>
    cases hS with
    | cons hbc hS => exact .cons (h _ _ _ hab hbc) (ih hS)

/-- Elements that can each be related to something make up a list that can be. -/
theorem exists_forall₂ {α β : Type} {R : α → β → Prop} {as : List α} (h : ∀ a ∈ as, ∃ b, R a b) :
    ∃ bs, List.Forall₂ R as bs := by
  induction as with
  | nil => exact ⟨[], .nil⟩
  | cons a as ih =>
    obtain ⟨b, hb⟩ := h a List.mem_cons_self
    obtain ⟨bs, hbs⟩ := ih fun a ha => h a (List.mem_cons_of_mem _ ha)
    exact ⟨b :: bs, .cons hb hbs⟩

end Datacube
