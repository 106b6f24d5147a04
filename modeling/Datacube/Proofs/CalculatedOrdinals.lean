import Datacube.Proofs.Assurance
import Datacube.Proofs.Correspondences

/-!
# The ordinals of calculated members

A calculated member belongs to the level of its first operand, and its ordinal counts what comes
before it: the members that are counted for that operand, and the calculated members defined before.
For a measure these are the measures of the cube and otherwise the members of the level.  Calculated
members count as measures wherever they are defined, so that a calculated member over one of another
level than that of the measures is not placed after the members of this level.

## Main definitions

* `Provider.CountsMembers` — whether the cardinalities of levels are the numbers of their members.
* `Provider.siblings` — the members that are counted for a first operand.
* `Provider.FirstOperand` — the first operands of the calculated members of a query.

## Main results

* `Provider.calculated_ordinals` — **the ordinals of calculated members**.
* `Provider.not_after_members` — a calculated member in the place of a member of its level.
-/

namespace Datacube

/-- Whether a definition is one of a calculated member. -/
def Expr.definesMember : Expr → Bool
  | .calculatedMember .. => true
  | _ => false

namespace Provider

/-! ### The members of levels -/

/-- Whether the cardinality of each listed level of a cube is the number of its members. -/
def CountsMembers (p : Provider Outcome) (cube : Cube) : Prop :=
  ∀ hierarchy levels, p.levels cube hierarchy = .ok levels → ∀ level ∈ levels,
    ∃ members, p.levelMembers cube level = .ok members ∧ members.length = level.cardinality

/-- The members that are counted for a first operand: the measures of the cube for a measure, and
otherwise the members of its level. -/
def siblings (p : Provider Outcome) (cube : Cube) (member : Member) : Outcome (List Member) := do
  if member.isMeasure then p.measures cube
  else p.levelMembers cube (← p.levelOf cube member)

section

variable {p : Provider Outcome} {cube : Cube}

theorem mem_of_pick {α : Type} [Labelled α] {objects : List α} {name : String} {a : α}
    (h : (pick objects name : Outcome α) = .ok a) : a ∈ objects := by
  rw [pick] at h
  split at h
  · rename_i found hfind
    cases h
    exact List.mem_of_find?_eq_some hfind
  · cases h

/-- The level of a member is listed. -/
theorem exists_levels_of_levelOf {member : Member} {level : Level}
    (h : p.levelOf cube member = .ok level) :
    ∃ hierarchy levels, p.levels cube hierarchy = .ok levels ∧ level ∈ levels := by
  obtain ⟨hierarchy, -, h⟩ := Outcome.bind_eq_ok.1 h
  obtain ⟨levels, hlevels, hpick⟩ := Outcome.bind_eq_ok.1 h
  exact ⟨hierarchy, levels, hlevels, mem_of_pick hpick⟩

/-- If cardinalities are numbers of members, then the siblings are counted. -/
theorem exists_siblings (hcounts : p.CountsMembers cube) {member : Member} {n : Nat}
    (h : p.siblingCount cube member = .ok n) :
    ∃ siblings, p.siblings cube member = .ok siblings ∧ siblings.length = n := by
  unfold siblingCount at h
  unfold siblings
  split at h
  · rename_i hmeasure
    rw [if_pos hmeasure]
    obtain ⟨measures, hmeasures, hn⟩ := Outcome.bind_eq_ok.1 h
    exact ⟨measures, hmeasures, Outcome.pure_eq_ok.1 hn⟩
  · rename_i hmeasure
    rw [if_neg hmeasure]
    obtain ⟨level, hlevel, hn⟩ := Outcome.bind_eq_ok.1 h
    obtain ⟨hierarchy, levels, hlevels, hmem⟩ := exists_levels_of_levelOf hlevel
    obtain ⟨members, hmembers, hlength⟩ := hcounts hierarchy levels hlevels level hmem
    exact ⟨members, Outcome.bind_eq_ok.2 ⟨level, hlevel, hmembers⟩,
      hlength.trans (Outcome.pure_eq_ok.1 hn)⟩

/-- The count depends on the level of the operand, and on whether it is a measure. -/
theorem siblingCount_congr {x y : Member} (hkind : x.isMeasure = y.isMeasure)
    (hhierarchy : x.hierarchy = y.hierarchy) (hlevel : x.level = y.level) :
    p.siblingCount cube x = p.siblingCount cube y := by
  rw [siblingCount, siblingCount, levelOf, levelOf, hkind, hhierarchy, hlevel]

end

/-! ### First operands -/

/-- Whether a member is the first operand of the definition of the calculated member of an index:
the value of the operand in the context of the definitions before. -/
inductive FirstOperand (p : Provider Outcome) (cube : Cube) (definitions : List Expr) :
    Nat → Member → Prop
  | intro {before after : List Expr} {name : Identifier} {value : Expr}
    {properties : List (String × Expr)} {c : Context} {operator : Arithmetic} {lhs rhs : Expr}
    {x : Member} (hsplit : definitions = before ++ .calculatedMember name value properties :: after)
    (hcontext : before.foldlM p.define (.ofCube cube) = .ok c)
    (hparts : formulaParts? value = some (operator, lhs, rhs))
    (hvalue : p.evaluate lhs c = .ok (.object (.member x))) :
    FirstOperand p cube definitions (before.countP Expr.definesMember) x

section

variable {p : Provider Outcome} {cube : Cube} {definitions : List Expr} {k : Nat} {x y : Member}

theorem FirstOperand.append (h : p.FirstOperand cube definitions k x) (more : List Expr) :
    p.FirstOperand cube (definitions ++ more) k x := by
  obtain ⟨hsplit, hcontext, hparts, hvalue⟩ := h
  rw [hsplit]
  exact .intro (List.append_assoc _ _ _) hcontext hparts hvalue

/-- A definition of a calculated member is found by the number of those before. -/
private theorem before_unique {before before' after after' : List Expr} {d d' : Expr}
    (hd : d.definesMember = true) (h : before ++ d :: after = before' ++ d' :: after')
    (hcount : before.countP Expr.definesMember = before'.countP Expr.definesMember)
    (hd' : d'.definesMember = true) : before = before' ∧ d = d' := by
  induction before generalizing before' with
  | nil =>
    cases before' with
    | nil => exact ⟨rfl, (List.cons.inj h).1⟩
    | cons e before' =>
      obtain ⟨rfl, -⟩ := List.cons.inj h
      rw [List.countP_cons_of_pos hd] at hcount
      cases hcount
  | cons e before ih =>
    cases before' with
    | nil =>
      obtain ⟨rfl, -⟩ := List.cons.inj h
      rw [List.countP_cons_of_pos hd'] at hcount
      cases hcount
    | cons e' before' =>
      obtain ⟨rfl, hrest⟩ := List.cons.inj h
      rw [List.countP_cons, List.countP_cons, Nat.add_right_cancel_iff] at hcount
      obtain ⟨rfl, hdd⟩ := ih hrest hcount
      exact ⟨rfl, hdd⟩

/-- A calculated member has one first operand only. -/
theorem FirstOperand.unique (hx : p.FirstOperand cube definitions k x)
    (hy : p.FirstOperand cube definitions k y) : x = y := by
  obtain ⟨hsplit, hcontext, hparts, hvalue⟩ := hx
  generalize hk : List.countP _ _ = k at hy
  obtain ⟨hsplit', hcontext', hparts', hvalue'⟩ := hy
  obtain ⟨rfl, hd⟩ := before_unique rfl (hsplit.symm.trans hsplit') hk rfl
  cases hd
  cases hcontext.symm.trans hcontext'
  cases hparts.symm.trans hparts'
  cases hvalue.symm.trans hvalue'
  rfl

end

/-! ### Definitions -/

/-- Whether a member is a calculated one that goes into the level of its first operand, after what
is counted for this operand and a number of calculated members. -/
structure Placed (p : Provider Outcome) (cube : Cube) (k : Nat) (x m : Member) : Prop where
  isMeasure : m.isMeasure = true
  hierarchy : m.hierarchy = x.hierarchy
  level : m.level = x.level
  ordinal : ∃ n, p.siblingCount cube x = .ok n ∧ m.ordinal = n + k

/-- What is known of the context after the definitions that are done. -/
structure Defined (p : Provider Outcome) (cube : Cube) (done : List Expr) (c : Context) : Prop where
  run : done.foldlM p.define (.ofCube cube) = .ok c
  requireCube : c.cube = some cube
  length : c.members.length = done.countP Expr.definesMember
  placed : ∀ k m, c.members[k]? = some m →
    ∃ x, p.FirstOperand cube done k x ∧ p.Placed cube k x m

section

variable {p : Provider Outcome} {cube : Cube} {done : List Expr} {c c' : Context}

theorem placed_of_calculatedMember {name : Identifier} {value : Expr} {m : Member}
    (hcube : c.cube = some cube) (h : p.calculatedMember name value c = .ok m) :
    ∃ operator lhs rhs x, formulaParts? value = some (operator, lhs, rhs)
      ∧ p.evaluate lhs c = .ok (.object (.member x)) ∧ p.Placed cube c.members.length x m := by
  unfold calculatedMember at h
  split at h
  · cases h
  · rename_i operator lhs rhs hparts
    obtain ⟨vx, hvx, h⟩ := Outcome.bind_eq_ok.1 h
    obtain ⟨vy, hvy, h⟩ := Outcome.bind_eq_ok.1 h
    split at h
    · rename_i x y hx hy
      have hrequired : (c.requireCube : Outcome Cube) = .ok cube := by
        rw [Context.requireCube, hcube]
        rfl
      obtain ⟨_, hfound, hcount⟩ := Outcome.bind_eq_ok.1 h
      cases hrequired.symm.trans hfound
      obtain ⟨n, hn, hm⟩ := Outcome.bind_eq_ok.1 hcount
      cases hm
      rw [Value.eq_of_member? hx] at hvx
      exact ⟨operator, lhs, rhs, x, hparts, hvx, rfl, rfl, rfl, n, hn, rfl⟩
    · cases h

theorem defined_nil (p : Provider Outcome) (cube : Cube) : p.Defined cube [] (.ofCube cube) where
  run := rfl
  requireCube := rfl
  length := rfl
  placed k m hm := by
    rw [Context.ofCube, List.getElem?_nil] at hm
    cases hm

/-- **A definition keeps what is known**, and a calculated member gets the next index. -/
theorem Defined.step (hc : p.Defined cube done c) {d : Expr} (h : p.define c d = .ok c') :
    p.Defined cube (done ++ [d]) c' := by
  have hrun : (done ++ [d]).foldlM p.define (.ofCube cube) = .ok c' := by
    rw [List.foldlM_append]
    refine Outcome.bind_eq_ok.2 ⟨c, hc.run, ?_⟩
    rw [List.foldlM_cons]
    exact Outcome.bind_eq_ok.2 ⟨c', h, rfl⟩
  have hbefore : ∀ k m, c.members[k]? = some m →
      ∃ x, p.FirstOperand cube (done ++ [d]) k x ∧ p.Placed cube k x m := by
    intro k m hm
    obtain ⟨x, hx, hplaced⟩ := hc.placed k m hm
    exact ⟨x, hx.append [d], hplaced⟩
  cases d with
  | namedSet name value =>
    obtain ⟨v, -, hc'⟩ := Outcome.bind_eq_ok.1 h
    cases hc'
    refine ⟨hrun, hc.requireCube, ?_, hbefore⟩
    rw [List.countP_append]
    exact hc.length
  | calculatedMember name value properties =>
    obtain ⟨m, hm, hc'⟩ := Outcome.bind_eq_ok.1 h
    cases hc'
    obtain ⟨operator, lhs, rhs, x, hparts, hvalue, hplaced⟩ :=
      placed_of_calculatedMember hc.requireCube hm
    refine ⟨hrun, hc.requireCube, ?_, fun k a ha => ?_⟩
    · rw [List.countP_append, ← hc.length]
      exact List.length_append
    · rw [Context.withMember, List.getElem?_append] at ha
      split at ha
      · exact hbefore k a ha
      · rename_i hk
        rw [List.getElem?_singleton] at ha
        split at ha
        · cases ha
          obtain rfl : k = c.members.length := by omega
          have hx : p.FirstOperand cube (done ++ [.calculatedMember name value properties])
              (done.countP Expr.definesMember) x := .intro rfl hc.run hparts hvalue
          rw [← hc.length] at hx
          exact ⟨x, hx, hplaced⟩
        · cases ha
  | _ => cases h

/-- **The run of all definitions.** -/
theorem defined_of_foldlM (h : done.foldlM p.define (.ofCube cube) = .ok c) :
    p.Defined cube done c :=
  Outcome.assurance.foldlM (p.Defined cube) (fun _ _ _ _ hc _ => hc.step) (defined_nil p cube) c h

/-- The calculated members of a query are those of the context after its definitions. -/
theorem defined_of_evaluateQuery {s : Select Expr} {q : Query} (h : p.evaluateQuery s = .ok q) :
    ∃ c, p.Defined q.cube s.definitions c ∧ q.calculated = c.members := by
  obtain ⟨cube, -, h⟩ := Outcome.bind_eq_ok.1 h
  obtain ⟨c, hc, h⟩ := Outcome.bind_eq_ok.1 h
  obtain ⟨slicer, -, h⟩ := Outcome.bind_eq_ok.1 h
  split at h
  · cases h
  · obtain ⟨axes, -, h⟩ := Outcome.bind_eq_ok.1 h
    cases h
    exact ⟨c, defined_of_foldlM hc, rfl⟩

end

/-! ### Ordinals -/

/-- **The ordinals of calculated members.**  If cardinalities are numbers of members, then the
calculated members of a statement are its definitions in order, each of them has one first operand,
to whose level it belongs, and its ordinal is the number of the siblings of this operand plus its
own index.  It comes after every sibling that is numbered below their number.  Of two calculated
members of a level whose first operands are both measures or both none, the one that is defined
later has the greater ordinal. -/
theorem calculated_ordinals (p : Provider Outcome) {s : Select Expr} {q : Query}
    (hcounts : p.CountsMembers q.cube) (h : p.evaluateQuery s = .ok q) :
    q.calculated.length = s.definitions.countP Expr.definesMember
    ∧ (∀ k m, q.calculated[k]? = some m → ∃ x, p.FirstOperand q.cube s.definitions k x)
    ∧ (∀ k m x, q.calculated[k]? = some m → p.FirstOperand q.cube s.definitions k x →
      m.isMeasure = true ∧ m.hierarchy = x.hierarchy ∧ m.level = x.level
      ∧ ∃ siblings, p.siblings q.cube x = .ok siblings ∧ m.ordinal = siblings.length + k
        ∧ ∀ a ∈ siblings, a.ordinal < siblings.length → a.ordinal < m.ordinal)
    ∧ ∀ i j a b x y, i < j → q.calculated[i]? = some a → q.calculated[j]? = some b →
      p.FirstOperand q.cube s.definitions i x → p.FirstOperand q.cube s.definitions j y →
      a.hierarchy = b.hierarchy → a.level = b.level → x.isMeasure = y.isMeasure →
      a.ordinal < b.ordinal := by
  obtain ⟨c, hc, hcalculated⟩ := defined_of_evaluateQuery h
  have hplaced : ∀ k m x, q.calculated[k]? = some m → p.FirstOperand q.cube s.definitions k x →
      p.Placed q.cube k x m := by
    intro k m x hm hx
    obtain ⟨x', hx', hplaced⟩ := hc.placed k m (hcalculated ▸ hm)
    rwa [hx.unique hx']
  refine ⟨hcalculated ▸ hc.length, fun k m hm => ?_, fun k m x hm hx => ?_, ?_⟩
  · obtain ⟨x, hx, -⟩ := hc.placed k m (hcalculated ▸ hm)
    exact ⟨x, hx⟩
  · obtain ⟨hmeasure, hhierarchy, hlevel, n, hn, hordinal⟩ := hplaced k m x hm hx
    obtain ⟨siblings, hsiblings, rfl⟩ := exists_siblings hcounts hn
    refine ⟨hmeasure, hhierarchy, hlevel, siblings, hsiblings, hordinal, fun a _ ha => ?_⟩
    omega
  · intro i j a b x y hij ha hb hx hy hhierarchy hlevel hkind
    have hpa := hplaced i a x ha hx
    have hpb := hplaced j b y hb hy
    obtain ⟨n, hn, hordinal⟩ := hpa.ordinal
    obtain ⟨n', hn', hordinal'⟩ := hpb.ordinal
    -- both counts are the same
    have hcount : p.siblingCount q.cube x = p.siblingCount q.cube y := by
      refine siblingCount_congr hkind ?_ ?_
      · rw [← hpa.hierarchy, hhierarchy, hpb.hierarchy]
      · rw [← hpa.level, hlevel, hpb.level]
    cases (hn.symm.trans hcount).trans hn'
    omega

/-! ### Sums of countries -/

/-- A level of three countries. -/
def countryLevel : Level := ⟨.ofName "[Geo].[Country]" "Country", "Sales", "[Geo]", "[Geo]", 0, 3⟩

/-- The level of a single measure. -/
def amountLevel : Level :=
  ⟨.ofName measuresLevel "MeasuresLevel", "Sales", measuresDimension, measuresHierarchy, 0, 1⟩

/-- A provider that lists three countries and a measure. -/
def europe : Provider Outcome where
  cube _ := pure none
  dimensions _ := pure [⟨.ofName "[Geo]" "Geo", "Sales", .other, 0⟩,
    ⟨.ofName measuresDimension "Measures", "Sales", .measure, 1⟩]
  hierarchies _ d := pure [⟨d.label, "Sales", d.label.uniqueName⟩]
  levels _ h := pure [if h.dimension = "[Geo]" then countryLevel else amountLevel]
  members _ _ := pure [.regular (.ofName "[Geo].[AT]" "AT") countryLevel 0,
    .regular (.ofName "[Geo].[DE]" "DE") countryLevel 1,
    .regular (.ofName "[Geo].[CH]" "CH") countryLevel 2]
  measures _ := pure [.stored (.ofName "[Measures].[Amount]" "Amount") amountLevel 0 .sum]

theorem countsMembers_europe (cube : Cube) : europe.CountsMembers cube := by
  intro hierarchy levels hlevels level hlevel
  cases hlevels
  rw [List.mem_singleton] at hlevel
  split at hlevel
  · subst hlevel
    exact ⟨_, rfl, rfl⟩
  · subst hlevel
    exact ⟨_, rfl, rfl⟩

/-- The definition of a sum. -/
def sumOf (name lhs rhs : List String) : Expr :=
  .calculatedMember ⟨name⟩ (.call "+" .binary [.identifier ⟨lhs⟩, .identifier ⟨rhs⟩]) []

/-- A statement with given definitions over the countries. -/
def sumStatement (definitions : List Expr) : Select Expr where
  definitions
  axes := []
  source := .object (.cube ⟨.ofName "[Sales]" "Sales", "LdCatalog", "LdSchema"⟩)
  slicer := none

/-- Two sums of amounts, the second over the first, and between them a sum of countries. -/
def mixedStatement : Select Expr := sumStatement [
  sumOf ["Measures", "Doubled"] ["Measures", "Amount"] ["Measures", "Amount"],
  sumOf ["Geo", "Both"] ["Geo", "AT"] ["Geo", "DE"],
  sumOf ["Measures", "Tripled"] ["Measures", "Doubled"] ["Measures", "Amount"]]

/-- Two sums of countries, the second over the first. -/
def nestedStatement : Select Expr := sumStatement [
  sumOf ["Geo", "Both"] ["Geo", "AT"] ["Geo", "DE"],
  sumOf ["Geo", "More"] ["Geo", "Both"] ["Geo", "AT"]]

set_option maxRecDepth 100000 in
theorem isOk_mixed : (europe.evaluateQuery mixedStatement).isOk = true := by decide +kernel

set_option maxRecDepth 100000 in
theorem isOk_nested : (europe.evaluateQuery nestedStatement).isOk = true := by decide +kernel

/-- The result of the statement with sums of amounts and of countries. -/
def mixedQuery : Query := Outcome.get _ isOk_mixed

/-- The result of the statement with sums of countries only. -/
def nestedQuery : Query := Outcome.get _ isOk_nested

set_option maxRecDepth 100000 in
/-- The sums of amounts follow the measure, and the sum of countries follows the three countries. -/
theorem calculated_ordinals_mixed :
    mixedQuery.calculated.length = 3
    ∧ ∀ k m, mixedQuery.calculated[k]? = some m →
      ∃ x siblings, europe.FirstOperand mixedQuery.cube mixedStatement.definitions k x
        ∧ europe.siblings mixedQuery.cube x = .ok siblings ∧ m.ordinal = siblings.length + k := by
  have hquery : europe.evaluateQuery mixedStatement = .ok mixedQuery :=
    Outcome.eq_ok_get isOk_mixed
  obtain ⟨hlength, hoperands, hordinals, -⟩ :=
    calculated_ordinals europe (countsMembers_europe _) hquery
  refine ⟨hlength, fun k m hm => ?_⟩
  obtain ⟨x, hx⟩ := hoperands k m hm
  obtain ⟨-, -, -, siblings, hsiblings, hordinal, -⟩ := hordinals k m x hm hx
  exact ⟨x, siblings, hx, hsiblings, hordinal⟩

set_option maxRecDepth 100000 in
/-- A sum of countries that is the first operand of another one counts as a measure.  So the other
one, of index 1, does not come after the three countries and the first sum, but has the ordinal of a
country. -/
theorem not_after_members :
    europe.CountsMembers nestedQuery.cube ∧ europe.evaluateQuery nestedStatement = .ok nestedQuery
    ∧ ∃ m x members, nestedQuery.calculated[1]? = some m
      ∧ europe.FirstOperand nestedQuery.cube nestedStatement.definitions 1 x
      ∧ x.level = countryLevel.label.uniqueName
      ∧ europe.levelMembers nestedQuery.cube countryLevel = .ok members
      ∧ members.map Member.ordinal = [0, 1, 2] ∧ m.ordinal = 2
      ∧ m.ordinal ≠ members.length + 1 := by
  have hquery : europe.evaluateQuery nestedStatement = .ok nestedQuery :=
    Outcome.eq_ok_get isOk_nested
  obtain ⟨m, hm, hlevel, hordinal⟩ : ∃ m, nestedQuery.calculated[1]? = some m
      ∧ m.level = countryLevel.label.uniqueName ∧ m.ordinal = 2 := by
    decide +kernel
  obtain ⟨c, hc, hcalculated⟩ := defined_of_evaluateQuery hquery
  obtain ⟨x, hx, hplaced⟩ := hc.placed 1 m (hcalculated ▸ hm)
  refine ⟨countsMembers_europe _, hquery, m, x, _, hm, hx, ?_, rfl, rfl, hordinal, ?_⟩
  · rw [← hplaced.level, hlevel]
  · rw [hordinal]
    decide

end Provider

end Datacube
