import Datacube.Proofs.BoundedSearches
import Datacube.Proofs.Searches

/-!
# Searches among members of any rows

The children of a member are looked for in the level whose depth is the next one after the depth
that the member itself tells, and not after that of the level which lists the member.  Rows may tell
any depths and any parents, so a member may be its own child.  A search that begins at a member and
finds nothing does not come to an end then.

## Main definitions

* `Provider.Searches` — what a search with a queue finds, or the fault in which it ends.
* `Provider.Contains`, `Provider.Below` — the children and the descendants of an object.
* `Provider.Leads` — where segments lead if every search ends.
* `Store.listed` — what an engine lists, as a provider.

## Main results

* `Provider.find_eq` — **a bounded search** answers like one that visits as many generations.
* `Provider.acc_member_iff` — there is no endless descent from a member if and only if no member
  below it is below itself.
* `Provider.search_ends` — **which searches end**, and when all of them do that begin at an object.
* `TableEngine.not_search_ends` — rows with which a search does not end.
-/

namespace Datacube

/-- The items of an outcome; none if it is a fault. -/
def Outcome.items {α : Type} : Outcome (List α) → List α
  | .ok as => as
  | .error _ => []

theorem Outcome.items_eq {α : Type} {x : Outcome (List α)} {as : List α} (h : x = .ok as) :
    x.items = as := by
  rw [h, items]

/-- What an engine with fixed answers lists, as a provider. -/
def Store.listed {σ : Type} (s : Store σ) (answers : Request → Outcome RowSet) :
    Provider Outcome where
  cube name := do return (← s.answer answers .cubes).find? fun cube : Cube => isNamed cube name
  dimensions x := s.answer answers (.dimensions x)
  hierarchies x d := s.answer answers (.hierarchies x d)
  levels x h := s.answer answers (.levels x h)
  members x l := s.answer answers (.members x l)
  measures x := s.answer answers (.measures x)

namespace Provider

variable (p : Provider Outcome) (x : Cube) (segment : String)

/-! ### Searches with a queue -/

/-- The children of an object.  If there is a fault instead, it takes their place. -/
def reached : Outcome SchemaObject → List (Outcome SchemaObject)
  | .ok o =>
    match p.children x o with
    | .ok os => os.map .ok
    | .error e => [.error e]
  | .error _ => []

/-- Whether a search ends at an object or a fault. -/
def stops : Outcome SchemaObject → Bool
  | .ok o => o.isNamed segment
  | .error _ => true

/-- Whether a search that begins at `start` looks for the children of an object. -/
def expandsFrom (start : SchemaObject) : Outcome SchemaObject → Bool
  | .ok o => isContainer o || !isContainer start
  | .error _ => false

/-- What a search with a queue finds that begins at an object, or the fault in which it ends. -/
def Searches (start : SchemaObject) (found : Option (Outcome SchemaObject)) : Prop :=
  Explores (p.reached x) (expandsFrom start) (stops segment) [.ok start] found

/-- The provider with another bound for its searches. -/
def within (generations : Nat) : Provider Outcome := { p with generations }

variable {p x segment} {start : SchemaObject}

theorem expandsFrom_self (o : SchemaObject) : expandsFrom o (.ok o) = true :=
  Bool.or_not_self _

theorem expandsFrom_member (a : Member) (o : SchemaObject) :
    expandsFrom (.member a) (.ok o) = true := Bool.or_true _

theorem reached_of_ok {o : SchemaObject} {os : List SchemaObject} (h : p.children x o = .ok os) :
    p.reached x (.ok o) = os.map .ok := by
  rw [reached, h]

theorem reached_of_error {o : SchemaObject} {e : Fault} (h : p.children x o = .error e) :
    p.reached x (.ok o) = [.error e] := by
  rw [reached, h]

theorem find?_map_ok (os : List SchemaObject) :
    (os.map (Except.ok (ε := Fault))).find? (stops segment)
      = (os.find? (·.isNamed segment)).map .ok := List.find?_map ..

/-! ### Searches by generations -/

/-- The children of several objects are searched together, up to the first fault. -/
private theorem searchChildren_cases (os : List SchemaObject) :
    (∃ k, ((os.map .ok).flatMap (p.reached x)).find? (stops segment) = some (.ok k)
      ∧ p.searchChildren x segment os = .ok (.inl k))
    ∨ (∃ e, ((os.map .ok).flatMap (p.reached x)).find? (stops segment) = some (.error e)
      ∧ p.searchChildren x segment os = .error e)
    ∨ ∃ ks, ((os.map .ok).flatMap (p.reached x)).find? (stops segment) = none
      ∧ (os.map .ok).flatMap (p.reached x) = ks.map .ok
      ∧ p.searchChildren x segment os = .ok (.inr ks) := by
  induction os with
  | nil => exact .inr (.inr ⟨[], rfl, rfl, rfl⟩)
  | cons o os ih =>
    rw [List.map_cons, List.flatMap_cons, List.find?_append, searchChildren]
    cases hkids : p.children x o with
    | error e =>
      rw [reached_of_error hkids]
      exact .inr (.inl ⟨e, rfl, rfl⟩)
    | ok ks =>
      rw [reached_of_ok hkids, find?_map_ok]
      dsimp only [bind, Except.bind]
      cases ks.find? fun k => k.isNamed segment with
      | some k => exact .inl ⟨k, rfl, rfl⟩
      | none =>
        rw [Option.map_none, Option.none_or]
        rcases ih with ⟨k, hfind, h⟩ | ⟨e, hfind, h⟩ | ⟨rest, hfind, hrest, h⟩
        · rw [h]
          exact .inl ⟨k, hfind, rfl⟩
        · rw [h]
          exact .inr (.inl ⟨e, hfind, rfl⟩)
        · rw [h, hrest, ← List.map_append]
          exact .inr (.inr ⟨ks ++ rest, hrest ▸ hfind, rfl, rfl⟩)

/-- The answer of a search, if the number of generations is enough. -/
def conclude (segment : String) :
    Option (Option (Outcome SchemaObject)) → Outcome (Option SchemaObject)
  | some found => found.mapM id
  | none => .error (.searchTooDeep segment)

/-- Searching by generations is a search through a number of them. -/
private theorem descend_eq (n : Nat) (os : List SchemaObject) :
    p.descend (fun o => expandsFrom start (.ok o)) x segment n os
      = conclude segment (exploreTo (p.reached x) (expandsFrom start) (stops segment) n
        (os.map .ok)) := by
  have hfilter : ∀ os : List SchemaObject, (os.map Except.ok).filter (expandsFrom start)
      = (os.filter fun o => expandsFrom start (.ok o)).map .ok := fun os => List.filter_map ..
  induction n generalizing os with
  | zero =>
    rw [descend.eq_def, exploreTo, hfilter]
    dsimp only
    cases os.filter fun o => expandsFrom start (.ok o) with
    | nil => rfl
    | cons o os => rfl
  | succ n ih =>
    rw [descend.eq_def, exploreTo, hfilter]
    dsimp only
    cases os.filter fun o => expandsFrom start (.ok o) with
    | nil =>
      rw [List.map_nil, List.flatMap_nil, List.find?_nil]
      dsimp only
      rw [exploreTo_of_filter_eq_nil rfl]
      rfl
    | cons o os =>
      dsimp only
      rcases @searchChildren_cases p x segment (o :: os) with
        ⟨k, hfind, h⟩ | ⟨e, hfind, h⟩ | ⟨ks, hfind, hks, h⟩
      · rw [h, hfind]
        rfl
      · rw [h, hfind]
        rfl
      · rw [h, hfind]
        dsimp only
        rw [hks, ← ih]
        rfl

/-- How many generations a search visits at most. -/
def reach (p : Provider Outcome) (o : SchemaObject) : Nat :=
  (if isContainer o then o.rank else p.generations) + 1

/-- **A bounded search** answers like one that visits as many generations. -/
theorem find_eq (o : SchemaObject) : p.find x o segment = conclude segment
    (exploreTo (p.reached x) (expandsFrom o) (stops segment) (p.reach o) [.ok o]) := by
  have hexpands : (fun o' => expandsFrom o (.ok o'))
      = if isContainer o then isContainer else fun _ => true := by
    funext o'
    cases h : isContainer o <;> simp [expandsFrom, h]
  rw [find, reach, exploreTo, List.filter_cons_of_pos (expandsFrom_self o), List.filter_nil,
    List.flatMap_singleton]
  cases hkids : p.children x o with
  | error e =>
    rw [reached_of_error hkids]
    rfl
  | ok ks =>
    rw [reached_of_ok hkids, find?_map_ok]
    dsimp only [bind, Except.bind]
    cases ks.find? fun k => k.isNamed segment with
    | some k => rfl
    | none =>
      dsimp only [Option.map_none]
      rw [← descend_eq, hexpands]
      cases isContainer o <;> rfl

/-- The bound of searches does not matter for the children of an object. -/
theorem children_within (g : Nat) (o : SchemaObject) :
    (p.within g).children x o = p.children x o := by
  have hhierarchyIn : ∀ name ds,
      (p.within g).hierarchyIn x name ds = p.hierarchyIn x name ds := by
    intro name ds
    induction ds with
    | nil => rfl
    | cons d ds ih =>
      rw [hierarchyIn, hierarchyIn, ih]
      rfl
  cases o with
  | member a =>
    have hhierarchy : (p.within g).hierarchy x a.hierarchy = p.hierarchy x a.hierarchy := by
      rw [hierarchy, hierarchy]
      exact congrArg _ (funext fun ds => hhierarchyIn a.hierarchy ds)
    rw [children, children, memberChildren, memberChildren, hhierarchy]
    rfl
  | cube | dimension | hierarchy | level => rfl

theorem reached_within (g : Nat) : (p.within g).reached x = p.reached x := by
  funext r
  cases r with
  | error e => rfl
  | ok o => rw [reached, reached, children_within]

/-! ### Objects that contain others -/

/-- Below a container, every generation has a lower rank. -/
theorem rank_of_mem_children {o : SchemaObject} (ho : isContainer o = true)
    {os : List SchemaObject} (h : p.children x o = .ok os) : ∀ k ∈ os, k.rank + 1 = o.rank := by
  cases o with
  | member a => cases ho
  | cube | dimension | hierarchy | level =>
    obtain ⟨as, -, h⟩ := Outcome.bind_eq_ok.1 h
    cases h
    exact List.forall_mem_map.2 fun _ _ => rfl

/-- A search that begins at a container visits no more generations than there are ranks below. -/
theorem diesOut_of_container (hstart : isContainer start = true) (o : SchemaObject) :
    DiesOut (p.reached x) (expandsFrom start) o.rank (.ok o) := by
  have hexpands : ∀ o, expandsFrom start (.ok o) = isContainer o := by
    intro o
    rw [expandsFrom, hstart, Bool.not_true, Bool.or_false]
  generalize hrank : o.rank = n
  induction n generalizing o with
  | zero =>
    rw [DiesOut, hexpands]
    cases o with
    | member => rfl
    | cube | dimension | hierarchy | level => cases hrank
  | succ n ih =>
    rintro k ⟨ho, hk⟩
    rw [hexpands] at ho
    cases hkids : p.children x o with
    | error e =>
      rw [reached_of_error hkids, List.mem_singleton] at hk
      subst hk
      exact DiesOut.mono (Nat.zero_le n) rfl
    | ok ks =>
      rw [reached_of_ok hkids] at hk
      obtain ⟨k, hmem, rfl⟩ := List.mem_map.1 hk
      have hless := rank_of_mem_children ho hkids k hmem
      exact ih k (by omega)

/-- **A search that begins at a container** ends. -/
theorem exists_exploreTo_of_container (p : Provider Outcome) (x : Cube) (segment : String)
    (hstart : isContainer start = true) {n : Nat} (hn : start.rank ≤ n) : ∃ found,
      exploreTo (p.reached x) (expandsFrom start) (stops segment) n [.ok start] = some found :=
  exists_exploreTo_of_diesOut
    (List.forall_mem_singleton.2 ((diesOut_of_container hstart start).mono hn))

/-! ### Members -/

/-- Whether an object is a child of another one. -/
def Contains (p : Provider Outcome) (x : Cube) (o k : SchemaObject) : Prop :=
  ∃ os, p.children x o = .ok os ∧ k ∈ os

/-- Whether an object is a descendant of another one. -/
def Below (p : Provider Outcome) (x : Cube) : SchemaObject → SchemaObject → Prop :=
  Relation.TransGen (p.Contains x)

/-- Whether a search ends at the children of an object: there is a fault, or one of them is named. -/
def Halts (p : Provider Outcome) (x : Cube) (segment : String) (o : SchemaObject) : Prop :=
  match p.children x o with
  | .ok os => ∃ k ∈ os, k.isNamed segment = true
  | .error _ => True

/-- The levels of a cube. -/
def listedLevels (p : Provider Outcome) (x : Cube) : List Level :=
  (p.dimensions x).items.flatMap fun d => (p.hierarchies x d).items.flatMap fun h =>
    (p.levels x h).items

/-- The members that the levels of a cube list. -/
def listedMembers (p : Provider Outcome) (x : Cube) : List Member :=
  (p.listedLevels x).flatMap fun l => (p.members x l).items

/-- A hierarchy that is found by its unique name is one of those that dimensions list. -/
private theorem mem_hierarchies_of_hierarchyIn {name : String} {ds : List Dimension}
    {h : Hierarchy} (hfound : p.hierarchyIn x name ds = .ok h) :
    ∃ d ∈ ds, h ∈ (p.hierarchies x d).items := by
  induction ds with
  | nil => cases hfound
  | cons d ds ih =>
    obtain ⟨hs, hhs, hfound⟩ := Outcome.bind_eq_ok.1 hfound
    split at hfound
    · rename_i h' hfind
      cases hfound
      rw [← Outcome.items_eq hhs] at hfind
      exact ⟨d, List.mem_cons_self, List.mem_of_find?_eq_some hfind⟩
    · obtain ⟨d', hd', hmem⟩ := ih hfound
      exact ⟨d', List.mem_cons_of_mem _ hd', hmem⟩

/-- **A child of a member** is listed by a level whose depth is the next one after that of the
member. -/
theorem contains_member {a : Member} {k : SchemaObject} (h : p.Contains x (.member a) k) :
    ∃ b l, k = .member b ∧ l ∈ p.listedLevels x ∧ l.depth = a.depth + 1
      ∧ b ∈ (p.members x l).items := by
  obtain ⟨os, hos, hk⟩ := h
  obtain ⟨bs, hbs, hos⟩ := Outcome.bind_eq_ok.1 hos
  cases hos
  obtain ⟨b, hb, rfl⟩ := List.mem_map.1 hk
  rw [memberChildren] at hbs
  split at hbs
  · cases hbs
    cases hb
  · obtain ⟨h, hh, hbs⟩ := Outcome.bind_eq_ok.1 hbs
    obtain ⟨ds, hds, hh⟩ := Outcome.bind_eq_ok.1 hh
    obtain ⟨d, hd, hmem⟩ := mem_hierarchies_of_hierarchyIn hh
    obtain ⟨ls, hls, hbs⟩ := Outcome.bind_eq_ok.1 hbs
    split at hbs
    · cases hbs
      cases hb
    · rename_i l hfind
      obtain ⟨members, hmembers, hbs⟩ := Outcome.bind_eq_ok.1 hbs
      cases hbs
      refine ⟨b, l, rfl, ?_, ?_, ?_⟩
      · refine List.mem_flatMap.2 ⟨d, Outcome.items_eq hds ▸ hd, ?_⟩
        refine List.mem_flatMap.2 ⟨h, hmem, ?_⟩
        exact Outcome.items_eq hls ▸ List.mem_of_find?_eq_some hfind
      · exact eq_of_beq (List.find?_some (p := fun l : Level => l.depth == a.depth + 1) hfind)
      · rw [Outcome.items_eq hmembers]
        exact (List.mem_filter.1 hb).1

/-- What is below a member is a member that has to do with it as every child has, if this goes down
from child to child. -/
private theorem exists_of_below {r : Member → Member → Prop}
    (htrans : ∀ {a b b'}, r a b → r b b' → r a b')
    (hcontains : ∀ {a k}, p.Contains x (.member a) k → ∃ b, k = .member b ∧ r a b)
    {a : Member} {k : SchemaObject} (h : p.Below x (.member a) k) : ∃ b, k = .member b ∧ r a b := by
  induction h with
  | single h => exact hcontains h
  | tail _ h ih =>
    obtain ⟨b, rfl, hb⟩ := ih
    obtain ⟨b', rfl, hb'⟩ := hcontains h
    exact ⟨b', rfl, htrans hb hb'⟩

/-- What is below a member is a member that a level lists. -/
theorem below_member {a : Member} {k : SchemaObject} (h : p.Below x (.member a) k) :
    ∃ b, k = .member b ∧ b ∈ p.listedMembers x := by
  refine exists_of_below (r := fun _ b => b ∈ p.listedMembers x) (fun _ hb => hb) ?_ h
  intro a k h
  obtain ⟨b, l, rfl, hl, -, hb⟩ := contains_member h
  exact ⟨b, rfl, List.mem_flatMap.2 ⟨l, hl, hb⟩⟩

/-- There are finitely many objects below a member. -/
theorem finite_below_member (a : Member) : {k | p.Below x (.member a) k}.Finite := by
  refine Set.Finite.subset ((p.listedMembers x).map SchemaObject.member).finite_toSet fun k hk => ?_
  obtain ⟨b, rfl, hb⟩ := below_member hk
  exact List.mem_map_of_mem hb

/-! ### Searches that begin at a member -/

section

variable (m : Member)

/-- What a search reaches from an object: its children, or a fault. -/
private theorem grows_iff {o : SchemaObject} {r : Outcome SchemaObject} :
    Grows (p.reached x) (expandsFrom (.member m)) (.ok o) r ↔
      (∃ k, r = .ok k ∧ p.Contains x o k) ∨ ∃ e, r = .error e ∧ p.children x o = .error e := by
  rw [Grows, expandsFrom_member, eq_self, true_and]
  cases hkids : p.children x o with
  | error e =>
    rw [reached_of_error hkids, List.mem_singleton]
    constructor
    · rintro rfl
      exact .inr ⟨e, rfl, rfl⟩
    · rintro (⟨k, -, os, hos, -⟩ | ⟨e', rfl, he⟩)
      · rw [hkids] at hos
        cases hos
      · cases he
        rfl
  | ok os =>
    rw [reached_of_ok hkids, List.mem_map]
    constructor
    · rintro ⟨k, hk, rfl⟩
      exact .inl ⟨k, rfl, os, hkids, hk⟩
    · rintro (⟨k, rfl, os', hos', hk⟩ | ⟨e, -, he⟩)
      · obtain rfl := Except.ok.inj (hkids.symm.trans hos')
        exact ⟨k, hk, rfl⟩
      · cases he

/-- Nothing is reached from a fault. -/
private theorem not_grows_error {e : Fault} {r : Outcome SchemaObject} :
    ¬ Grows (p.reached x) (expandsFrom start) (.error e) r := fun h => nomatch h.1

private theorem reflTransGen_grows_iff {o k : SchemaObject} :
    Relation.ReflTransGen (Grows (p.reached x) (expandsFrom (.member m))) (.ok o) (.ok k)
      ↔ Relation.ReflTransGen (p.Contains x) o k := by
  constructor
  · intro h
    generalize hr : Except.ok k = r at h
    induction h generalizing k with
    | refl =>
      cases hr
      exact .refl
    | @tail r r' _ hgrows ih =>
      cases r with
      | error e => exact absurd hgrows not_grows_error
      | ok b =>
        rcases (grows_iff m).1 hgrows with ⟨k', rfl, hcontains⟩ | ⟨e, rfl, -⟩
        · cases hr
          exact (ih rfl).tail hcontains
        · cases hr
  · intro h
    exact h.lift Except.ok fun _ _ hcontains => (grows_iff m).2 (.inl ⟨_, rfl, hcontains⟩)

private theorem halts_iff {o : SchemaObject} : p.Halts x segment o ↔
    ∃ r, Grows (p.reached x) (expandsFrom (.member m)) (.ok o) r ∧ stops segment r = true := by
  simp only [grows_iff, Halts]
  cases hkids : p.children x o with
  | error e => exact iff_of_true trivial ⟨_, .inr ⟨e, rfl, rfl⟩, rfl⟩
  | ok os =>
    constructor
    · rintro ⟨k, hk, hnamed⟩
      exact ⟨_, .inl ⟨k, rfl, os, hkids, hk⟩, hnamed⟩
    · rintro ⟨r, ⟨k, rfl, os', hos', hk⟩ | ⟨e, rfl, he⟩, hstops⟩
      · obtain rfl := Except.ok.inj (hkids.symm.trans hos')
        exact ⟨k, hk, hstops⟩
      · cases he

/-- **What makes a search end below an object**: an object at whose children it ends. -/
private theorem exists_stops_iff {o : SchemaObject} :
    (∃ r, Relation.TransGen (Grows (p.reached x) (expandsFrom (.member m))) (.ok o) r
      ∧ stops segment r = true)
    ↔ ∃ k, Relation.ReflTransGen (p.Contains x) o k ∧ p.Halts x segment k := by
  constructor
  · rintro ⟨r, hbelow, hstops⟩
    obtain ⟨r', hreached, hgrows⟩ := Relation.TransGen.tail'_iff.1 hbelow
    cases r' with
    | error e => exact absurd hgrows not_grows_error
    | ok k =>
      exact ⟨k, (reflTransGen_grows_iff m).1 hreached, (halts_iff m).2 ⟨r, hgrows, hstops⟩⟩
  · rintro ⟨k, hreached, hhalts⟩
    obtain ⟨r, hgrows, hstops⟩ := (halts_iff m).1 hhalts
    exact ⟨r, .tail' ((reflTransGen_grows_iff m).2 hreached) hgrows, hstops⟩

/-- A fault does not make a descent endless. -/
private theorem acc_grows_iff {o : SchemaObject} :
    Acc (fun r r' => Grows (p.reached x) (expandsFrom (.member m)) r' r) (.ok o)
      ↔ Acc (fun k o => p.Contains x o k) o := by
  constructor
  · intro h
    generalize hr : Except.ok o = r at h
    induction h generalizing o with
    | intro r _ ih =>
      subst hr
      exact ⟨_, fun k hk => ih (.ok k) ((grows_iff m).2 (.inl ⟨k, rfl, hk⟩)) rfl⟩
  · intro h
    induction h with
    | intro o _ ih =>
      refine ⟨_, fun r hr => ?_⟩
      rcases (grows_iff m).1 hr with ⟨k, rfl, hk⟩ | ⟨e, rfl, -⟩
      · exact ih k hk
      · exact ⟨_, fun _ h => absurd h not_grows_error⟩

/-- **There is no endless descent** from a member if and only if no member below it is below
itself. -/
theorem acc_member_iff : Acc (fun k o => p.Contains x o k) (.member m)
    ↔ ∀ k, p.Below x (.member m) k → ¬ p.Below x k k :=
  acc_iff_of_finite (finite_below_member m)

end

/-- **Which searches end**: those that begin at a container, those that meet an object at whose
children they end, and those below whose start no object is below itself. -/
theorem searches_iff : (∃ found, p.Searches x segment start found) ↔ isContainer start = true
    ∨ (∃ k, Relation.ReflTransGen (p.Contains x) start k ∧ p.Halts x segment k)
    ∨ ∀ k, p.Below x start k → ¬ p.Below x k k := by
  cases hstart : isContainer start with
  | true =>
    refine iff_of_true ?_ (.inl rfl)
    obtain ⟨found, h⟩ := exists_exploreTo_of_container p x segment hstart le_rfl
    exact ⟨found, explores_of_exploreTo h⟩
  | false =>
    cases start with
    | cube | dimension | hierarchy | level => cases hstart
    | member m =>
      simp only [Searches, Explores.ends_iff, List.mem_singleton, exists_eq_left, forall_eq,
        exists_stops_iff, acc_grows_iff, acc_member_iff, Bool.false_eq_true, false_or]

/-! ### Bounds -/

/-- **A search that ends** gives its answer if enough generations are allowed. -/
theorem find_of_searches {found : Option (Outcome SchemaObject)}
    (h : p.Searches x segment start found) :
    ∃ g, ∀ g' ≥ g, (p.within g').find x start segment = found.mapM id := by
  obtain ⟨n, hn⟩ := explores_iff.1 h
  refine ⟨n, fun g hg => ?_⟩
  have hend : exploreTo (p.reached x) (expandsFrom start) (stops segment)
      ((p.within g).reach start) [.ok start] = some found := by
    cases hstart : isContainer start with
    | true =>
      rw [reach, hstart, if_pos rfl]
      obtain ⟨found', h'⟩ :=
        exists_exploreTo_of_container p x segment hstart (Nat.le_succ start.rank)
      rw [h', h.functional (explores_of_exploreTo h')]
    | false =>
      rw [reach, hstart, if_neg Bool.false_ne_true]
      exact exploreTo_of_le hn (Nat.le_succ_of_le hg)
  rw [find_eq, reached_within, hend, conclude]

/-- **A search that does not end** exceeds every bound. -/
theorem find_of_not_searches (h : ¬ ∃ found, p.Searches x segment start found) (g : Nat) :
    (p.within g).find x start segment = .error (.searchTooDeep segment) := by
  rw [find_eq, reached_within]
  cases hend : exploreTo (p.reached x) (expandsFrom start) (stops segment)
      ((p.within g).reach start) [.ok start] with
  | none => rfl
  | some found => exact absurd ⟨found, explores_of_exploreTo hend⟩ h

/-! ### Identifiers -/

/-- Where segments lead from an object if every search ends: to the last object that is found, or to
a fault. -/
inductive Leads (p : Provider Outcome) (x : Cube) :
    SchemaObject → List String → Outcome SchemaObject → Prop where
  | all {o : SchemaObject} : Leads p x o [] (.ok o)
  | rest {o : SchemaObject} {segment : String} {segments : List String} :
    p.Searches x segment o none → Leads p x o (segment :: segments) (.ok o)
  | fault {o : SchemaObject} {segment : String} {segments : List String} {e : Fault} :
    p.Searches x segment o (some (.error e)) → Leads p x o (segment :: segments) (.error e)
  | next {o k : SchemaObject} {segment : String} {segments : List String}
    {result : Outcome SchemaObject} : p.Searches x segment o (some (.ok k)) →
    Leads p x k segments result → Leads p x o (segment :: segments) result

/-- Segments that lead somewhere are followed if enough generations are allowed. -/
theorem follow_of_leads {o : SchemaObject} {segments : List String} {result : Outcome SchemaObject}
    (h : p.Leads x o segments result) :
    ∃ g, ∀ g' ≥ g, (p.within g').follow x o segments = result := by
  induction h with
  | all => exact ⟨0, fun _ _ => rfl⟩
  | rest h | fault h =>
    obtain ⟨g, hg⟩ := find_of_searches h
    refine ⟨g, fun g' hg' => ?_⟩
    rw [follow, hg g' hg']
    rfl
  | next h _ ih =>
    obtain ⟨g, hg⟩ := find_of_searches h
    obtain ⟨g₁, hg₁⟩ := ih
    refine ⟨max g g₁, fun g' hg' => ?_⟩
    rw [follow, hg g' ((Nat.le_max_left _ _).trans hg')]
    exact hg₁ g' ((Nat.le_max_right _ _).trans hg')

/-- If every search ends, segments lead somewhere. -/
theorem exists_leads (h : ∀ o segment, ∃ found, p.Searches x segment o found) (o : SchemaObject)
    (segments : List String) : ∃ result, p.Leads x o segments result := by
  induction segments generalizing o with
  | nil => exact ⟨_, .all⟩
  | cons segment segments ih =>
    obtain ⟨found, hfound⟩ := h o segment
    rcases found with _ | _ | k
    · exact ⟨_, .rest hfound⟩
    · exact ⟨_, .fault hfound⟩
    · obtain ⟨result, hresult⟩ := ih k
      exact ⟨result, .next hfound hresult⟩

/-- Below a member, depths grow if no level lists a member whose depth is less than its own. -/
theorem depth_lt_of_below
    (hdeep : ∀ l ∈ p.listedLevels x, ∀ a ∈ (p.members x l).items, l.depth ≤ a.depth)
    {a : Member} {k : SchemaObject} (h : p.Below x (.member a) k) :
    ∃ b, k = .member b ∧ a.depth < b.depth := by
  refine exists_of_below (r := fun a b => a.depth < b.depth) Nat.lt_trans ?_ h
  intro a k h
  obtain ⟨b, l, rfl, hl, hdepth, hb⟩ := contains_member h
  have hle := hdeep l hl b hb
  exact ⟨b, rfl, by omega⟩

/-- **All searches end** if no level lists a member whose depth is less than its own. -/
theorem exists_searches
    (hdeep : ∀ l ∈ p.listedLevels x, ∀ a ∈ (p.members x l).items, l.depth ≤ a.depth)
    (o : SchemaObject) (segment : String) : ∃ found, p.Searches x segment o found := by
  rw [searches_iff]
  cases o with
  | cube | dimension | hierarchy | level => exact .inl rfl
  | member a =>
    refine .inr (.inr fun k hk hcycle => ?_)
    obtain ⟨b, rfl, -⟩ := depth_lt_of_below hdeep hk
    obtain ⟨b', hb', hlt⟩ := depth_lt_of_below hdeep hcycle
    cases hb'
    exact Nat.lt_irrefl _ hlt

/-- **Which searches end**, whatever rows a provider lists.  A search with a queue ends if and only
if it begins at a container, it meets an object at whose children it ends, or no object below its
start is below itself.  If it ends, a bounded search gives its answer as soon as the bound is large
enough; if it does not end, the bounded search exceeds every bound.  If no level lists a member
whose depth is less than its own, and the next depth after that of every member at or below the
start is a count, all searches end, so all identifiers lead somewhere. -/
theorem search_ends (p : Provider Outcome) (x : Cube) :
    (∀ start segment, (∃ found, p.Searches x segment start found) ↔ isContainer start = true
      ∨ (∃ k, Relation.ReflTransGen (p.Contains x) start k ∧ p.Halts x segment k)
      ∨ ∀ k, p.Below x start k → ¬ p.Below x k k)
    ∧ (∀ start segment found, p.Searches x segment start found →
      ∃ g, ∀ g' ≥ g, (p.within g').find x start segment = found.mapM id)
    ∧ (∀ start segment, (¬ ∃ found, p.Searches x segment start found) →
      ∀ g, (p.within g).find x start segment = .error (.searchTooDeep segment))
    ∧ ((∀ l ∈ p.listedLevels x, ∀ a ∈ (p.members x l).items, l.depth ≤ a.depth) →
      ∀ start, (∀ a, Relation.ReflTransGen (p.Contains x) start (.member a) →
        a.depth + 1 < countBound) →
      (∀ segment, ∃ found, p.Searches x segment start found)
      ∧ ∀ segments, ∃ result, p.Leads x start segments result
        ∧ ∃ g, ∀ g' ≥ g, (p.within g').follow x start segments = result) := by
  -- the sums of depths are numbers here, so no proof needs that they are counts
  refine ⟨fun _ _ => searches_iff, fun _ _ _ => find_of_searches, fun _ _ => find_of_not_searches,
    fun hdeep start _ => ⟨exists_searches hdeep start, fun segments => ?_⟩⟩
  obtain ⟨result, hresult⟩ := exists_leads (exists_searches hdeep) start segments
  exact ⟨result, hresult, follow_of_leads hresult⟩

/-- At and below a member whose next depth is a count, all next depths are counts if those of the
listed members are. -/
theorem depth_lt_of_reached (hcounts : ∀ a ∈ p.listedMembers x, a.depth + 1 < countBound)
    {a b : Member} (ha : a.depth + 1 < countBound)
    (h : Relation.ReflTransGen (p.Contains x) (.member a) (.member b)) :
    b.depth + 1 < countBound := by
  rcases Relation.reflTransGen_iff_eq_or_transGen.1 h with heq | hbelow
  · cases heq
    exact ha
  · obtain ⟨b', hb', hlisted⟩ := below_member hbelow
    cases hb'
    exact hcounts b hlisted

/-- What an engine that serves the sales lists, as a provider. -/
def salesListed : Provider Outcome :=
  salesConnection.store.listed
    (MemoryEngine.register ⟨"LdCatalog", "LdSchema", []⟩ salesCube).answer

set_option maxRecDepth 100000 in
/-- All searches end that begin at a member of the sales. -/
theorem search_ends_sales :
    (salesListed.listedMembers salesCube.cube).map (fun a => (a.label.name, a.depth))
        = [("AT", 0), ("DE", 0), ("Graz", 1), ("Linz", 1), ("2020", 0), ("2021", 0)]
      ∧ (∀ l ∈ salesListed.listedLevels salesCube.cube,
        ∀ a ∈ (salesListed.members salesCube.cube l).items, l.depth ≤ a.depth)
      ∧ ∀ a ∈ salesListed.listedMembers salesCube.cube,
        (∀ b, Relation.ReflTransGen (salesListed.Contains salesCube.cube) (.member a) (.member b) →
          b.depth + 1 < countBound)
        ∧ (∀ segment, ∃ found, salesListed.Searches salesCube.cube segment (.member a) found)
        ∧ ∀ segments, ∃ result, salesListed.Leads salesCube.cube (.member a) segments result := by
  obtain ⟨hlisted, hdeep, hcounts⟩ :
      (salesListed.listedMembers salesCube.cube).map (fun a => (a.label.name, a.depth))
          = [("AT", 0), ("DE", 0), ("Graz", 1), ("Linz", 1), ("2020", 0), ("2021", 0)]
        ∧ (∀ l ∈ salesListed.listedLevels salesCube.cube,
          ∀ a ∈ (salesListed.members salesCube.cube l).items, l.depth ≤ a.depth)
        ∧ ∀ a ∈ salesListed.listedMembers salesCube.cube, a.depth + 1 < countBound := by
    decide +kernel
  refine ⟨hlisted, hdeep, fun a ha => ?_⟩
  have hreached : ∀ b, Relation.ReflTransGen (salesListed.Contains salesCube.cube) (.member a)
      (.member b) → b.depth + 1 < countBound :=
    fun _ hb => depth_lt_of_reached hcounts (hcounts a ha) hb
  obtain ⟨hends, hleads⟩ := (search_ends salesListed salesCube.cube).2.2.2 hdeep (.member a) hreached
  refine ⟨hreached, hends, fun segments => ?_⟩
  obtain ⟨result, hresult, -⟩ := hleads segments
  exact ⟨result, hresult⟩

/-! ### Members that are their own parents -/

/-- **A member that is its own only child** keeps every search going for another name. -/
theorem not_searches_of_children {a : Member} (hkids : p.children x (.member a) = .ok [.member a])
    (hnamed : (SchemaObject.member a).isNamed segment = false) :
    ¬ ∃ found, p.Searches x segment (.member a) found := by
  have hchild : p.Contains x (.member a) (.member a) := ⟨_, hkids, List.mem_cons_self⟩
  have hself : ∀ k, Relation.ReflTransGen (p.Contains x) (.member a) k → k = .member a := by
    intro k h
    induction h with
    | refl => rfl
    | tail _ h ih =>
      obtain ⟨os, hos, hk⟩ := ih ▸ h
      cases hkids.symm.trans hos
      exact List.mem_singleton.1 hk
  rw [searches_iff]
  rintro (h | ⟨k, hk, hhalts⟩ | hacyclic)
  · cases h
  · rw [hself k hk, Halts, hkids] at hhalts
    obtain ⟨k, hk, hstops⟩ := hhalts
    rw [List.mem_singleton.1 hk, hnamed] at hstops
    cases hstops
  · exact hacyclic _ (.single hchild) (.single hchild)

end Provider

namespace Session

variable {σ α β : Type} {I : Shelves → Prop}

/-- A fault ends a computation. -/
theorem yields_bind_error {x : Session σ α} {e : Fault} (hx : Yields I x (.error e))
    (f : α → Session σ β) : Yields I (x >>= f) (.error e) := by
  intro shelves state hI
  obtain ⟨hI', he⟩ := hx shelves state hI
  rw [run_bind]
  rcases h : x.run (shelves, state) with ⟨r, shelves', state'⟩
  rw [h] at hI' he
  subst he
  exact ⟨hI', rfl⟩

/-- Such a search exceeds every bound in a store as well. -/
theorem yields_find_of_children {p : Provider (Session σ)} {x : Cube} {segment : String}
    {a : Member}
    (hkids : Yields I (p.children x (.member a)) (.ok [.member a]))
    (hnamed : (SchemaObject.member a).isNamed segment = false) :
    Yields I (p.find x (.member a) segment) (.error (.searchTooDeep segment)) := by
  have hnone : [SchemaObject.member a].find? (·.isNamed segment) = none := by
    rw [List.find?_cons, hnamed, List.find?_nil]
  have hdescend : ∀ n, Yields I (p.descend (fun _ => true) x segment n [.member a])
      (.error (.searchTooDeep segment)) := by
    intro n
    induction n with
    | zero => exact fun _ _ hI => ⟨hI, rfl⟩
    | succ n ih =>
      rw [Provider.descend.eq_def]
      exact yields_bind (yields_searchChildren_singleton hkids hnone) ih
  refine yields_bind hkids ?_
  simp only [hnone, Provider.isContainer]
  exact hdescend _

end Session

namespace OwnParent

open Calendars (table)

/-- A level of depth one whose only member is its own parent and does not tell its depth. -/
def tables : TableEngine where
  listings := fun
    | .cubes => table [Column.cubeName] [["Sales"]]
    | .dimensions => table [Column.cubeName, Column.dimensionName, Column.dimensionUniqueName]
      [["Sales", "Geo", "[Geo]"]]
    | .hierarchies =>
      table [Column.cubeName, Column.dimensionUniqueName, Column.hierarchyName,
          Column.hierarchyUniqueName] [["Sales", "[Geo]", "Geo", "[Geo]"]]
    | .levels =>
      table [Column.cubeName, Column.dimensionUniqueName, Column.hierarchyUniqueName,
          Column.levelName, Column.levelUniqueName, Column.levelNumber]
        [["Sales", "[Geo]", "[Geo]", "Place", "[Geo].[Place]", "1"]]
    | .members =>
      table [Column.cubeName, Column.dimensionUniqueName, Column.hierarchyUniqueName,
          Column.levelUniqueName, Column.memberName, Column.memberUniqueName,
          Column.parentUniqueName]
        [["Sales", "[Geo]", "[Geo]", "[Geo].[Place]", "AT", "[Geo].[AT]", "[Geo].[AT]"]]
    | .databases | .catalogs | .schemas | .measures => .ok (.empty [])
  result := .ok (.empty [])

/-- A new connection to the cube. -/
def connection : Connection Unit where
  config := {}
  engine := .ofAnswers tables.answer
  state := ()

def cube : Cube := ⟨⟨"[Sales]", "Sales", "Sales", ""⟩, "", ""⟩

def dimension : Dimension := ⟨⟨"[Geo]", "Geo", "Geo", ""⟩, "Sales", .unknown, 0⟩

def hierarchy : Hierarchy := ⟨⟨"[Geo]", "Geo", "Geo", ""⟩, "Sales", "[Geo]"⟩

/-- The level of the places. -/
def places : Level :=
  ⟨⟨"[Geo].[Place]", "Place", "Place", ""⟩, "Sales", "[Geo]", "[Geo]", 1, 0⟩

/-- The member that is its own parent. -/
def austria : Member :=
  { Member.regular ⟨"[Geo].[AT]", "AT", "AT", ""⟩ places 0 with
    depth := 0, parent := some "[Geo].[AT]" }

/-- What the engine lists. -/
theorem answer_tables :
    connection.store.answer tables.answer .cubes = .ok [cube]
      ∧ connection.store.answer tables.answer (.dimensions cube) = .ok [dimension]
      ∧ connection.store.answer tables.answer (.hierarchies cube dimension) = .ok [hierarchy]
      ∧ connection.store.answer tables.answer (.levels cube hierarchy) = .ok [places]
      ∧ connection.store.answer tables.answer (.members cube places) = .ok [austria]
      ∧ connection.store.answer tables.answer (.measures cube) = .ok [] := by
  decide +kernel

/-- The provider of the store, with a bound for its searches. -/
def bounded (generations : Nat) : Provider (Session Unit) :=
  { connection.store.provider with generations }

/-- What the store answers about objects that are named like those around them. -/
private theorem yields_list {q : Inquiry} (hq : q.Formed) {items : List q.listing.Item}
    (h : connection.store.answer tables.answer q = .ok items) :
    Session.Yields (connection.store.Faithful tables.answer Inquiry.Formed)
      (connection.store.list q) (.ok items) :=
  Store.yields_list rfl (fun _ _ hq' hq => hq'.agrees hq) hq h

/-- **The way to the member** leads through all containers, and it never ends there. -/
private theorem yields_resolveObject (g : Nat) :
    Session.Yields (connection.store.Faithful tables.answer Inquiry.Formed)
      ((bounded g).resolveObject cube ⟨["Geo", "AT", "Graz"]⟩)
      (.error (.searchTooDeep "Graz")) := by
  obtain ⟨-, hdimensions, hhierarchies, hlevels, hmembers, hmeasures⟩ := answer_tables
  have hformed : places.Formed := ⟨"Geo", "Place", by decide, by decide, by decide⟩
  replace hdimensions := yields_list (q := .dimensions cube) trivial hdimensions
  replace hhierarchies := yields_list (q := .hierarchies cube dimension) trivial hhierarchies
  replace hlevels := yields_list (q := .levels cube hierarchy) rfl hlevels
  replace hmembers := yields_list (q := .members cube places) hformed hmembers
  replace hmeasures := yields_list (q := .measures cube) trivial hmeasures
  rw [← Store.dimensions_eq_list] at hdimensions
  rw [← Store.levels_eq_list] at hlevels
  rw [← Store.members_eq_list] at hmembers
  have hchild : Session.Yields (connection.store.Faithful tables.answer Inquiry.Formed)
      ((bounded g).children cube (.member austria)) (.ok [.member austria]) := by
    refine Session.yields_return (a := [austria]) ?_ _
    have hhierarchy : Session.Yields (connection.store.Faithful tables.answer Inquiry.Formed)
        ((bounded g).hierarchyIn cube "[Geo]" [dimension]) (.ok hierarchy) :=
      Session.yields_bind hhierarchies (Session.yields_pure _)
    refine Session.yields_bind (Session.yields_bind hdimensions hhierarchy) ?_
    exact Session.yields_bind hlevels (Session.yields_bind hmembers (Session.yields_pure _))
  refine Session.yields_bind (Session.yields_find_child
    (Session.yields_return hdimensions _) (k := .dimension dimension) rfl) ?_
  refine Session.yields_bind (a := some (.member austria)) ?_ ?_
  · refine Session.yields_find_descend rfl (Session.yields_return hhierarchies _) rfl ?_
    refine Session.yields_descend_next (List.forall_mem_singleton.2 rfl)
      (Session.yields_searchChildren_singleton (Session.yields_return hlevels _) rfl) ?_
    refine Session.yields_descend_found (List.forall_mem_singleton.2 rfl)
      (Session.yields_searchChildren_head (Session.yields_return (a := [austria]) ?_ _) rfl)
    exact Session.yields_bind hmeasures hmembers
  · exact Session.yields_bind_error (Session.yields_find_of_children hchild rfl) _

end OwnParent

/-- **A search need not end.**  The engine lists a level of depth one with a member that is its own
parent and does not tell its depth, which is taken to be zero.  So the member is its own child, and
a search that begins at it for another name does not end.  On a new connection, an identifier with
the name of the member and another one exceeds every bound. -/
theorem TableEngine.not_search_ends :
    let p := OwnParent.connection.store.listed OwnParent.tables.answer
    p.cube "Sales" = .ok (some OwnParent.cube)
      ∧ p.listedLevels OwnParent.cube = [OwnParent.places]
      ∧ p.members OwnParent.cube OwnParent.places = .ok [OwnParent.austria]
      ∧ (¬ ∃ found, p.Searches OwnParent.cube "Graz" (.member OwnParent.austria) found)
      ∧ ∀ g, (OwnParent.connection.run fun s => ({ s.provider with generations := g }
          : Provider (Session Unit)).resolveObject OwnParent.cube ⟨["Geo", "AT", "Graz"]⟩).1
        = .error (.searchTooDeep "Graz") := by
  intro p
  have hkids : p.children OwnParent.cube (.member OwnParent.austria)
      = .ok [.member OwnParent.austria] := by
    decide +kernel
  refine ⟨by decide +kernel, by decide +kernel, by decide +kernel,
    Provider.not_searches_of_children hkids (by decide), fun g => ?_⟩
  exact @Connection.outcome_of_yields OwnParent.connection _ rfl rfl [] nofun _ nofun _ _ _
    (OwnParent.yields_resolveObject g)

end Datacube
