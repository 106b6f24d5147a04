import Datacube.Proofs.Assurance
import Datacube.Proofs.Correspondences
import Datacube.Proofs.Plans
import Mathlib.Data.List.Induction
import Mathlib.Data.List.Nodup

/-!
# Axes as values describe them

An axis is described by a member, by a tuple of members that is not empty, or by a set of these.
Each element of the value gives one position, and what is listed besides the positions is taken from
their members: every hierarchy once, and every measure once, in the order of their first use.  Any
other value is refused.

## Main definitions

* `FirstOfEach` — whether a list has the first element with each key, in the order of the elements.
* `Value.Describes`, `Value.DescribesAxis` — the values that describe positions and axes.

## Main results

* `firstsBy_concat` — one step of the collection of first occurrences.
* `firstOfEach_firstsBy` — **first occurrences** are complete, without repetition and in order.
* `Value.axis_reflects` — **axes reflect their values**.
-/

namespace Datacube

/-! ### First occurrences -/

section

variable {α β : Type} [BEq β] [LawfulBEq β] {key : α → β} {as kept : List α} {a : α}

variable (key) in
/-- A key is kept if and only if it occurs. -/
theorem any_firstsBy (as : List α) (a : α) :
    ((firstsBy key as).any fun b => key b == key a) = true ↔ key a ∈ as.map key := by
  rw [List.any_eq_true, List.mem_map]
  constructor
  · rintro ⟨b, hb, hkey⟩
    exact ⟨b, mem_of_mem_firstsBy hb, eq_of_beq hkey⟩
  · rintro ⟨b, hb, hkey⟩
    obtain ⟨c, hc, hcb⟩ := exists_mem_firstsBy key hb
    exact ⟨c, hc, beq_iff_eq.2 (hcb.trans hkey)⟩

variable (key) in
/-- **One step of the collection**: an element at the end is kept unless its key is kept already. -/
theorem firstsBy_concat (as : List α) (a : α) :
    firstsBy key (as ++ [a])
      = if (firstsBy key as).any fun b => key b == key a then firstsBy key as
        else firstsBy key as ++ [a] := by
  induction as with
  | nil => rfl
  | cons b bs ih =>
    have hany := any_firstsBy key bs a
    rw [List.cons_append, firstsBy, firstsBy, ih]
    by_cases hlater : key a ∈ bs.map key
    · have hmem := (any_firstsBy key (b :: bs) a).2 (List.mem_cons_of_mem _ hlater)
      rw [firstsBy] at hmem
      rw [if_pos (hany.2 hlater), if_pos hmem]
    · rw [if_neg fun h => hlater (hany.1 h), List.filter_append]
      have hnew := any_firstsBy key (b :: bs) a
      rw [firstsBy, List.map_cons, List.mem_cons] at hnew
      by_cases hhead : key a = key b
      · have hdropped : [a].filter (fun c => key c != key b) = [] := by simp [hhead]
        rw [if_pos (hnew.2 (.inl hhead)), hdropped, List.append_nil]
      · have hkept : [a].filter (fun c => key c != key b) = [a] := by simp [hhead]
        rw [if_neg fun h => (hnew.1 h).elim hhead hlater, hkept, List.cons_append]

variable (key) in
/-- Whether a list has the first one of some elements with each key, in the order of these. -/
structure FirstOfEach (as kept : List α) : Prop where
  /-- No key occurs twice. -/
  nodup : (kept.map key).Nodup
  /-- What is kept is what is found by its key. -/
  mem_iff : ∀ a, a ∈ kept ↔ as.find? (fun b => key b == key a) = some a
  /-- The keys are in the order of their first occurrence. -/
  ordered : kept.Pairwise fun a b => (as.map key).idxOf (key a) < (as.map key).idxOf (key b)

namespace FirstOfEach

omit [LawfulBEq β] in
theorem mem_map (h : FirstOfEach key as kept) (ha : a ∈ kept) : key a ∈ as.map key :=
  List.mem_map_of_mem (List.mem_of_find?_eq_some ((h.mem_iff a).1 ha))

omit [LawfulBEq β] in
theorem nil : FirstOfEach key [] [] := ⟨List.nodup_nil, by simp, .nil⟩

/-- The order of what is kept does not change with another element at the end. -/
private theorem ordered_concat (h : FirstOfEach key as kept) (a : α) :
    kept.Pairwise fun b c =>
      ((as ++ [a]).map key).idxOf (key b) < ((as ++ [a]).map key).idxOf (key c) := by
  refine h.ordered.imp_of_mem fun {b c} hb hc hlt => ?_
  rwa [List.map_append, List.idxOf_append_of_mem (h.mem_map hb),
    List.idxOf_append_of_mem (h.mem_map hc)]

/-- An element whose key occurs before changes nothing. -/
theorem concat_old (h : FirstOfEach key as kept) (ha : key a ∈ as.map key) :
    FirstOfEach key (as ++ [a]) kept := by
  refine ⟨h.nodup, fun b => ?_, h.ordered_concat a⟩
  rw [h.mem_iff, List.find?_append]
  cases hfind : as.find? fun c => key c == key b with
  | some d => rfl
  | none =>
    -- the key of the element is not looked up, as it would have been found before
    have hne : key a ≠ key b := by
      intro hkey
      obtain ⟨c, hc, hca⟩ := List.mem_map.1 ha
      exact List.find?_eq_none.1 hfind c hc (beq_iff_eq.2 (hca.trans hkey))
    simp [hne]

/-- An element with a new key is kept, as the last one. -/
theorem concat_new (h : FirstOfEach key as kept) (ha : key a ∉ as.map key) :
    FirstOfEach key (as ++ [a]) (kept ++ [a]) := by
  refine ⟨?_, fun b => ?_, ?_⟩
  · rw [List.map_append, List.map_singleton, ← List.concat_eq_append]
    refine h.nodup.concat fun hmem => ha ?_
    obtain ⟨b, hb, heq⟩ := List.mem_map.1 hmem
    exact heq ▸ h.mem_map hb
  · rw [List.mem_append, List.mem_singleton, h.mem_iff, List.find?_append]
    by_cases hkey : key a = key b
    · have hnone : as.find? (fun c => key c == key b) = none :=
        List.find?_eq_none.2 fun c hc hcb =>
          ha (hkey ▸ eq_of_beq hcb ▸ List.mem_map_of_mem hc)
      simp [hnone, hkey, eq_comm]
    · have hne : b ≠ a := fun h => hkey (h ▸ rfl)
      simp [hkey, hne]
  · refine List.pairwise_append.2 ⟨h.ordered_concat a, List.pairwise_singleton _ _, ?_⟩
    intro b hb c hc
    rw [List.mem_singleton.1 hc, List.map_append, List.idxOf_append_of_mem (h.mem_map hb),
      List.idxOf_append_of_notMem ha]
    exact Nat.lt_add_right _ (List.idxOf_lt_length_of_mem (h.mem_map hb))

end FirstOfEach

variable (key) in
/-- **First occurrences** are complete, without repetition and in order, by induction on the
elements from the end. -/
theorem firstOfEach_firstsBy (as : List α) : FirstOfEach key as (firstsBy key as) := by
  induction as using List.reverseRecOn with
  | nil => exact .nil
  | append_singleton as a ih =>
    rw [firstsBy_concat]
    split
    · rename_i hold
      exact ih.concat_old ((any_firstsBy key as a).1 hold)
    · rename_i hnew
      exact ih.concat_new fun hmem => hnew ((any_firstsBy key as a).2 hmem)

end

/-! ### One pass over the members -/

namespace Axis

/-- The hierarchies and the measures of an axis after one more member: its hierarchy is new unless
it is listed, and a measure is new unless one of its unique name is. -/
def collect : List String × List Member → Member → List String × List Member
  | (hierarchies, measures), a =>
    (if hierarchies.contains a.hierarchy then hierarchies else hierarchies ++ [a.hierarchy],
      if a.isMeasure && !measures.any fun b => b.label.uniqueName == a.label.uniqueName then
        measures ++ [a]
      else measures)

/-- **One pass over the members** collects the hierarchies and the measures of an axis, by induction
on the members from the end. -/
theorem foldl_collect (as : List Member) :
    as.foldl collect ([], [])
      = (firstsBy id (as.map Member.hierarchy),
        firstsBy (fun a => a.label.uniqueName) (as.filter Member.isMeasure)) := by
  induction as using List.reverseRecOn with
  | nil => rfl
  | append_singleton as a ih =>
    have hhierarchies : firstsBy id ((as ++ [a]).map Member.hierarchy)
        = if (firstsBy id (as.map Member.hierarchy)).contains a.hierarchy then
            firstsBy id (as.map Member.hierarchy)
          else firstsBy id (as.map Member.hierarchy) ++ [a.hierarchy] := by
      rw [List.map_append, List.map_singleton, firstsBy_concat, List.contains_eq_any_beq]
      simp only [id, BEq.comm]
    rw [List.foldl_append, ih, List.foldl_cons, List.foldl_nil, collect, hhierarchies,
      List.filter_append]
    cases hmeasure : a.isMeasure with
    | false => simp [hmeasure]
    | true =>
      have hsingle : [a].filter Member.isMeasure = [a] := by simp [hmeasure]
      rw [hsingle, firstsBy_concat]
      cases (firstsBy (fun a => a.label.uniqueName) (as.filter Member.isMeasure)).any
        fun b => b.label.uniqueName == a.label.uniqueName <;> rfl

end Axis

/-! ### Faults of loops -/

/-- A loop ends in the fault of one of its elements. -/
theorem Outcome.exists_of_mapM_eq_error {α β : Type} {f : α → Outcome β} {as : List α} {e : Fault}
    (h : as.mapM f = .error e) : ∃ a ∈ as, f a = .error e := by
  induction as with
  | nil => cases h
  | cons a as ih =>
    rw [List.mapM_cons] at h
    cases ha : f a with
    | error e' =>
      rw [ha] at h
      cases h
      exact ⟨a, List.mem_cons_self, ha⟩
    | ok b =>
      rw [ha] at h
      cases has : as.mapM f with
      | error e' =>
        rw [has] at h
        cases h
        obtain ⟨a', hmem, ha'⟩ := ih has
        exact ⟨a', List.mem_cons_of_mem _ hmem, ha'⟩
      | ok bs =>
        rw [has] at h
        cases h

/-! ### Positions -/

namespace Value

/-- Whether a value describes a position with the given members: it is a member, or a tuple of
members that is not empty. -/
inductive Describes : Value → List Member → Prop
  | member (a : Member) : Describes (.object (.member a)) [a]
  | tuple {as : List Member} (h : as ≠ []) :
    Describes (.tuple (as.map fun a => .object (.member a))) as

/-- Whether a value describes an axis: it describes a position, or it is a set of values that do. -/
def DescribesAxis (v : Value) : Prop :=
  (∃ as, v.Describes as) ∨ ∃ elements, v = .set elements ∧ ∀ e ∈ elements, ∃ as, e.Describes as

variable {v : Value} {n : Nat}

theorem requireMember_eq_ok_iff {a : Member} :
    requireMember n v = .ok a ↔ v = .object (.member a) := by
  constructor
  · intro h
    rw [requireMember] at h
    split at h <;> cases h
    rename_i ha
    exact eq_of_member? ha
  · rintro rfl
    rfl

/-- The members of a tuple are read if and only if all its components are members. -/
theorem mapM_requireMember_eq_ok_iff {values : List Value} {as : List Member} :
    values.mapM (requireMember n) = .ok as ↔ values = as.map fun a => .object (.member a) := by
  rw [Outcome.mapM_eq_ok, ← List.forall₂_eq_eq_eq, List.forall₂_map_right_iff]
  simp only [requireMember_eq_ok_iff]

/-- **A position is read** from the values that describe one, and it has their members. -/
theorem toPosition_eq_ok_iff {position : Position} :
    v.toPosition n = .ok position ↔ position.ordinal = n ∧ v.Describes position.members := by
  constructor
  · intro h
    unfold toPosition at h
    split at h
    · cases h
      exact ⟨rfl, .member _⟩
    · obtain ⟨as, has, rfl⟩ := Outcome.map_eq_ok.1 h
      rw [mapM_requireMember_eq_ok_iff] at has
      refine ⟨rfl, ?_⟩
      rw [has]
      exact .tuple fun hnil => List.cons_ne_nil _ _ (has.trans (congrArg _ hnil))
    · cases h
  · rintro ⟨rfl, h⟩
    obtain ⟨ordinal, members⟩ := position
    cases h with
    | member a => rfl
    | tuple hne =>
      obtain ⟨a, as, rfl⟩ := List.exists_cons_of_ne_nil hne
      exact Outcome.map_eq_ok.2 ⟨a :: as, mapM_requireMember_eq_ok_iff.2 rfl, rfl⟩

/-- A value that describes no position is reported as a malformed tuple. -/
theorem malformed_of_toPosition {e : Fault} (h : v.toPosition n = .error e) :
    ∃ reason, e = .malformedTuple reason := by
  unfold toPosition at h
  split at h
  · cases h
  · rename_i first rest
    cases hread : (first :: rest).mapM (requireMember n) with
    | ok as =>
      rw [hread] at h
      cases h
    | error e' =>
      rw [hread] at h
      cases h
      obtain ⟨w, -, hw⟩ := Outcome.exists_of_mapM_eq_error hread
      rw [requireMember] at hw
      split at hw <;> cases hw
      exact ⟨_, rfl⟩
  · cases h
    exact ⟨_, rfl⟩

/-! ### Axes -/

/-- The positions of elements that are counted from a number on. -/
private theorem mapM_toPosition_eq_ok_iff {elements : List Value} {positions : List Position} :
    (elements.zipIdx n).mapM (fun (e, i) => toPosition i e) = .ok positions
      ↔ positions.map Position.ordinal = List.range' n elements.length
        ∧ List.Forall₂ (fun e position => e.Describes position.members) elements positions := by
  simp only [Outcome.mapM_eq_ok, toPosition_eq_ok_iff]
  induction elements generalizing n positions with
  | nil => cases positions <;> simp
  | cons e es ih =>
    cases positions with
    | nil => simp
    | cons position positions =>
      rw [List.zipIdx_cons, List.forall₂_cons, List.forall₂_cons, ih, List.map_cons,
        List.length_cons, List.range'_succ, List.cons.injEq]
      exact and_and_and_comm

/-- **The positions of a value** are those that its elements describe, counted from zero. -/
theorem positions_eq_ok_iff {positions : List Position} :
    v.positions = .ok positions
      ↔ positions.map Position.ordinal = List.range v.elements.length
        ∧ List.Forall₂ (fun e position => e.Describes position.members) v.elements positions := by
  rw [List.range_eq_range']
  exact mapM_toPosition_eq_ok_iff

theorem malformed_of_positions {e : Fault} (h : v.positions = .error e) :
    ∃ reason, e = .malformedTuple reason := by
  obtain ⟨⟨w, i⟩, -, hw⟩ := Outcome.exists_of_mapM_eq_error h
  exact malformed_of_toPosition hw

/-- A value describes an axis if and only if all its elements describe positions. -/
theorem describesAxis_iff : v.DescribesAxis ↔ ∀ e ∈ v.elements, ∃ as, e.Describes as := by
  cases v with
  | set elements =>
    constructor
    · rintro (⟨_, ⟨⟩⟩ | ⟨_, ⟨⟩, h⟩)
      exact h
    · exact fun h => .inr ⟨elements, rfl, h⟩
  | _ =>
    constructor
    · rintro (h | ⟨_, ⟨⟩, -⟩)
      exact List.forall_mem_singleton.2 h
    · exact fun h => .inl (h _ List.mem_cons_self)

/-- A value has positions if and only if it describes an axis. -/
theorem exists_positions_iff : (∃ positions, v.positions = .ok positions) ↔ v.DescribesAxis := by
  rw [describesAxis_iff]
  constructor
  · rintro ⟨positions, h⟩ e he
    obtain ⟨position, -, hposition⟩ := exists_right_of_forall₂ (positions_eq_ok_iff.1 h).2 he
    exact ⟨position.members, hposition⟩
  · intro h
    have hread : ∀ x ∈ v.elements.zipIdx, ∃ position, toPosition x.2 x.1 = .ok position := by
      intro x hx
      obtain ⟨as, has⟩ := h x.1 (List.fst_mem_of_mem_zipIdx hx)
      exact ⟨⟨x.2, as⟩, toPosition_eq_ok_iff.2 ⟨rfl, has⟩⟩
    obtain ⟨positions, hpositions⟩ := exists_forall₂ hread
    exact ⟨positions, Outcome.mapM_eq_ok.2 hpositions⟩

/-- **Axes reflect their values.**  A value describes an axis if and only if it is a member, a tuple
of members that is not empty, or a set of these; any other value is reported as a malformed tuple.
The axis has a position for each element, counted from zero, with the members of the element.  Its
hierarchies are those of the members of its positions, and its measures are, for each unique name,
the first member of that name that is a measure; both without repetition and in the order of their
first occurrence. -/
theorem axis_reflects (v : Value) (ordinal : AxisOrdinal) :
    ((∃ axis, v.toAxis ordinal = .ok axis) ↔ v.DescribesAxis)
    ∧ (¬v.DescribesAxis → ∃ reason, v.toAxis ordinal = .error (.malformedTuple reason))
    ∧ ∀ axis, v.toAxis ordinal = .ok axis →
      axis.ordinal = ordinal
      ∧ axis.positions.map Position.ordinal = List.range v.elements.length
      ∧ List.Forall₂ (fun e position => e.Describes position.members) v.elements axis.positions
      ∧ (axis.hierarchies, axis.measures) = (Axis.membersOf axis.positions).foldl Axis.collect ([], [])
      ∧ FirstOfEach id ((Axis.membersOf axis.positions).map Member.hierarchy) axis.hierarchies
      ∧ FirstOfEach (fun a => a.label.uniqueName)
          ((Axis.membersOf axis.positions).filter Member.isMeasure) axis.measures := by
  have hexists : (∃ axis, v.toAxis ordinal = .ok axis) ↔ v.DescribesAxis := by
    rw [← exists_positions_iff]
    constructor
    · rintro ⟨axis, h⟩
      obtain ⟨positions, hpositions, -⟩ := Outcome.map_eq_ok.1 h
      exact ⟨positions, hpositions⟩
    · rintro ⟨positions, h⟩
      exact ⟨_, Outcome.map_eq_ok.2 ⟨positions, h, rfl⟩⟩
  refine ⟨hexists, fun hnot => ?_, fun axis h => ?_⟩
  · rw [← exists_positions_iff] at hnot
    cases hread : v.positions with
    | ok positions => exact absurd ⟨positions, hread⟩ hnot
    | error e =>
      obtain ⟨reason, rfl⟩ := malformed_of_positions hread
      rw [toAxis, hread]
      exact ⟨reason, rfl⟩
  · obtain ⟨positions, hpositions, rfl⟩ := Outcome.map_eq_ok.1 h
    obtain ⟨hordinals, hmembers⟩ := positions_eq_ok_iff.1 hpositions
    exact ⟨rfl, hordinals, hmembers, (Axis.foldl_collect _).symm, firstOfEach_firstsBy _ _,
      firstOfEach_firstsBy _ _⟩

/-- A member of a level of countries. -/
def countryNamed (name : String) : Member :=
  .regular (.ofName name name)
    ⟨.ofName "[Geo].[Country]" "Country", "Sales", "[Geo]", "[Geo]", 0, 2⟩ 0

/-- A measure, with the ordinal under which it is met. -/
def amountAt (ordinal : Nat) : Member :=
  .stored (.ofName "[Measures].[Amount]" "Amount")
    ⟨.ofName measuresLevel "MeasuresLevel", "Sales", measuresDimension, measuresHierarchy, 0, 1⟩
    ordinal .sum

/-- Two tuples with a measure and a member without one. -/
def amounts : Value :=
  .set [.tuple [.object (.member (countryNamed "AT")), .object (.member (amountAt 0))],
    .tuple [.object (.member (countryNamed "DE")), .object (.member (amountAt 1))],
    .object (.member (countryNamed "AT"))]

/-- The tuples describe three positions with two hierarchies, and of the measures with one unique
name the first one is listed.  A set of a set is refused. -/
theorem axis_reflects_amounts :
    (∃ axis, amounts.toAxis .slicer = .ok axis
      ∧ axis.positions.map Position.ordinal = [0, 1, 2]
      ∧ axis.positions.map Position.members = [[countryNamed "AT", amountAt 0],
        [countryNamed "DE", amountAt 1], [countryNamed "AT"]]
      ∧ axis.hierarchies = ["[Geo]", "[Measures]"]
      ∧ axis.measures = [amountAt 0])
    ∧ ∃ reason, (set [amounts]).toAxis .slicer = .error (.malformedTuple reason) := by
  have hpair : ∀ a b : Member,
      (tuple [.object (.member a), .object (.member b)]).Describes [a, b] := fun a b =>
    .tuple (List.cons_ne_nil a [b])
  have hdescribes : amounts.DescribesAxis := by
    refine .inr ⟨_, rfl, ?_⟩
    simp only [List.forall_mem_cons, List.not_mem_nil, false_imp_iff, implies_true, and_true]
    exact ⟨⟨_, hpair _ _⟩, ⟨_, hpair _ _⟩, _, .member _⟩
  have hnot : ¬(set [amounts]).DescribesAxis := by
    rintro (⟨_, ⟨⟩⟩ | ⟨_, ⟨⟩, h⟩)
    obtain ⟨_, ⟨⟩⟩ := h amounts List.mem_cons_self
  obtain ⟨hexists, -, hreflects⟩ := axis_reflects amounts .slicer
  obtain ⟨axis, haxis⟩ := hexists.2 hdescribes
  obtain ⟨-, hordinals, -, hlists, -⟩ := hreflects axis haxis
  have hmembers : axis.positions.map Position.members = [[countryNamed "AT", amountAt 0],
      [countryNamed "DE", amountAt 1], [countryNamed "AT"]] := by
    cases haxis
    rfl
  have hlisted : (axis.hierarchies, axis.measures) = (["[Geo]", "[Measures]"], [amountAt 0]) := by
    rw [hlists, Axis.membersOf, List.flatMap_def, hmembers]
    decide
  obtain ⟨hhierarchies, hmeasures⟩ := Prod.mk.inj hlisted
  exact ⟨⟨axis, haxis, hordinals, hmembers, hhierarchies, hmeasures⟩,
    (axis_reflects (set [amounts]) .slicer).2.1 hnot⟩

end Value

end Datacube
