import Datacube.Query.Meaning

/-!
# The parts of expressions

What stands in an expression and in the expressions inside it, and what becomes of an expression if
others are put in the place of its identifiers.

## Main definitions

* `Expr.objects` — the schema objects that stand in an expression.
* `Expr.calls` — the names of the functions and operators in an expression.
* `Expr.subst` — an expression with others in the place of its identifiers.
* `Expr.replace` — an expression with another one in the place of a name.

## Main results

* `Expr.subst_identifier` — identifiers in the place of themselves change nothing.
-/

namespace Datacube

/-! ### Objects in expressions -/

mutual

/-- The schema objects that stand in an expression. -/
def Expr.objects : Expr → List SchemaObject
  | .call _ _ args => Expr.objectsOf args
  | .object o => [o]
  | .identifier _ | .literal _ => []
  | .axis a => Expr.axisObjects a
  | .parameter _ _ default => default.objects
  | .property _ value => value.objects
  | .calculatedMember _ value properties => value.objects ++ Expr.propertyObjects properties
  | .namedSet _ value => value.objects
  | .select s => Expr.selectObjects s
  | .drillThrough s _ _ columns => Expr.selectObjects s ++ Expr.objectsOf columns

/-- The schema objects that stand in expressions. -/
def Expr.objectsOf : List Expr → List SchemaObject
  | [] => []
  | e :: es => e.objects ++ Expr.objectsOf es

/-- The schema objects that stand in the expression of an axis. -/
def Expr.axisObjects : AxisSpec Expr → List SchemaObject
  | ⟨_, _, expr⟩ => expr.objects

/-- The schema objects that stand in the expressions of axes. -/
def Expr.axesObjects : List (AxisSpec Expr) → List SchemaObject
  | [] => []
  | a :: as => Expr.axisObjects a ++ Expr.axesObjects as

/-- The schema objects that stand in a property of a calculated member. -/
def Expr.propertyObject : String × Expr → List SchemaObject
  | (_, value) => value.objects

/-- The schema objects that stand in the properties of a calculated member. -/
def Expr.propertyObjects : List (String × Expr) → List SchemaObject
  | [] => []
  | p :: ps => Expr.propertyObject p ++ Expr.propertyObjects ps

/-- The schema objects that stand in a slicer. -/
def Expr.slicerObjects : Option Expr → List SchemaObject
  | none => []
  | some e => e.objects

/-- The schema objects that stand in a statement. -/
def Expr.selectObjects : Select Expr → List SchemaObject
  | ⟨definitions, axes, source, slicer⟩ =>
    Expr.objectsOf definitions ++ Expr.axesObjects axes ++ source.objects
      ++ Expr.slicerObjects slicer

end

/-- The schema objects that stand in a statement. -/
def Select.objects (s : Select Expr) : List SchemaObject := Expr.selectObjects s

/-! ### Calls in expressions -/

mutual

/-- The names, in lower case, of the functions and operators in an expression. -/
def Expr.calls : Expr → List String
  | .call name _ args => lowerCase name :: Expr.callsOf args
  | .identifier _ | .literal _ | .object _ => []
  | .axis a => Expr.axisCalls a
  | .parameter _ _ default => default.calls
  | .property _ value => value.calls
  | .calculatedMember _ value properties => value.calls ++ Expr.propertyCalls properties
  | .namedSet _ value => value.calls
  | .select s => Expr.selectCalls s
  | .drillThrough s _ _ columns => Expr.selectCalls s ++ Expr.callsOf columns

/-- The names of the functions and operators in expressions. -/
def Expr.callsOf : List Expr → List String
  | [] => []
  | e :: es => e.calls ++ Expr.callsOf es

/-- The names of the functions and operators in the expression of an axis. -/
def Expr.axisCalls : AxisSpec Expr → List String
  | ⟨_, _, expr⟩ => expr.calls

/-- The names of the functions and operators in the expressions of axes. -/
def Expr.axesCalls : List (AxisSpec Expr) → List String
  | [] => []
  | a :: as => Expr.axisCalls a ++ Expr.axesCalls as

/-- The names of the functions and operators in a property of a calculated member. -/
def Expr.propertyCall : String × Expr → List String
  | (_, value) => value.calls

/-- The names of the functions and operators in the properties of a calculated member. -/
def Expr.propertyCalls : List (String × Expr) → List String
  | [] => []
  | p :: ps => Expr.propertyCall p ++ Expr.propertyCalls ps

/-- The names of the functions and operators in a slicer. -/
def Expr.slicerCalls : Option Expr → List String
  | none => []
  | some e => e.calls

/-- The names of the functions and operators in a statement. -/
def Expr.selectCalls : Select Expr → List String
  | ⟨definitions, axes, source, slicer⟩ =>
    Expr.callsOf definitions ++ Expr.axesCalls axes ++ source.calls ++ Expr.slicerCalls slicer

end

/-! ### Substitution -/

/-- The arguments of a call after a substitution: the target of a cast stays as it is. -/
def Expr.keepTarget (name : String) : List Expr → List Expr → List Expr
  | [_, target], [value, target'] => [value, if lowerCase name = "cast" then target else target']
  | _, substituted => substituted

mutual

/-- An expression with others in the place of its identifiers.  What is put in is not searched for
identifiers again. -/
def Expr.subst (f : Identifier → Expr) : Expr → Expr
  | .call name form args => .call name form (Expr.keepTarget name args (Expr.substAll f args))
  | .identifier i => f i
  | .literal l => .literal l
  | .object o => .object o
  | .axis a => .axis (Expr.substAxis f a)
  | .parameter name type default => .parameter name type (default.subst f)
  | .property name value => .property name (value.subst f)
  | .calculatedMember name value properties =>
    .calculatedMember name (value.subst f) (Expr.substProperties f properties)
  | .namedSet name value => .namedSet name (value.subst f)
  | .select s => .select (Expr.substSelect f s)
  | .drillThrough s maxRows firstRowSet columns =>
    .drillThrough (Expr.substSelect f s) maxRows firstRowSet (Expr.substAll f columns)

/-- Expressions with others in the place of their identifiers. -/
def Expr.substAll (f : Identifier → Expr) : List Expr → List Expr
  | [] => []
  | e :: es => e.subst f :: Expr.substAll f es

/-- An axis with other expressions in the place of its identifiers. -/
def Expr.substAxis (f : Identifier → Expr) : AxisSpec Expr → AxisSpec Expr
  | ⟨ordinal, nonEmpty, expr⟩ => ⟨ordinal, nonEmpty, expr.subst f⟩

/-- Axes with other expressions in the place of their identifiers. -/
def Expr.substAxes (f : Identifier → Expr) : List (AxisSpec Expr) → List (AxisSpec Expr)
  | [] => []
  | a :: as => Expr.substAxis f a :: Expr.substAxes f as

/-- A property of a calculated member with other expressions in the place of its identifiers. -/
def Expr.substProperty (f : Identifier → Expr) : String × Expr → String × Expr
  | (name, value) => (name, value.subst f)

/-- Properties of a calculated member with other expressions in the place of their identifiers. -/
def Expr.substProperties (f : Identifier → Expr) : List (String × Expr) → List (String × Expr)
  | [] => []
  | p :: ps => Expr.substProperty f p :: Expr.substProperties f ps

/-- A slicer with other expressions in the place of its identifiers. -/
def Expr.substSlicer (f : Identifier → Expr) : Option Expr → Option Expr
  | none => none
  | some e => some (e.subst f)

/-- A statement with other expressions in the place of its identifiers. -/
def Expr.substSelect (f : Identifier → Expr) : Select Expr → Select Expr
  | ⟨definitions, axes, source, slicer⟩ =>
    ⟨Expr.substAll f definitions, Expr.substAxes f axes, source.subst f,
      Expr.substSlicer f slicer⟩

end

namespace Expr

/-- Only casts have a target. -/
theorem keepTarget_of_ne {name : String} {args substituted : List Expr}
    (h : lowerCase name = "cast" → args.length ≠ 2) :
    keepTarget name args substituted = substituted := by
  unfold keepTarget
  split
  · rw [if_neg fun hname => h hname rfl]
  · rfl

theorem keepTarget_self (name : String) (args : List Expr) : keepTarget name args args = args := by
  match args with
  | [_, _] => rw [keepTarget, ite_self]
  | [] | [_] | _ :: _ :: _ :: _ => rfl

mutual

/-- **Identifiers in the place of themselves** change nothing. -/
theorem subst_identifier (e : Expr) : e.subst .identifier = e := by
  match e with
  | .call name form args => rw [subst, substAll_identifier args, keepTarget_self]
  | .identifier i => rw [subst]
  | .literal l => rw [subst]
  | .object o => rw [subst]
  | .axis a => rw [subst, substAxis_identifier a]
  | .parameter name type default => rw [subst, subst_identifier default]
  | .property name value => rw [subst, subst_identifier value]
  | .calculatedMember name value properties =>
    rw [subst, subst_identifier value, substProperties_identifier properties]
  | .namedSet name value => rw [subst, subst_identifier value]
  | .select s => rw [subst, substSelect_identifier s]
  | .drillThrough s maxRows firstRowSet columns =>
    rw [subst, substSelect_identifier s, substAll_identifier columns]

theorem substAll_identifier (es : List Expr) : substAll .identifier es = es := by
  match es with
  | [] => rw [substAll]
  | e :: es => rw [substAll, subst_identifier e, substAll_identifier es]

theorem substAxis_identifier (a : AxisSpec Expr) : substAxis .identifier a = a := by
  match a with
  | ⟨ordinal, nonEmpty, expr⟩ => rw [substAxis, subst_identifier expr]

theorem substAxes_identifier (as : List (AxisSpec Expr)) : substAxes .identifier as = as := by
  match as with
  | [] => rw [substAxes]
  | a :: as => rw [substAxes, substAxis_identifier a, substAxes_identifier as]

theorem substProperty_identifier (p : String × Expr) : substProperty .identifier p = p := by
  match p with
  | (name, value) => rw [substProperty, subst_identifier value]

theorem substProperties_identifier (ps : List (String × Expr)) :
    substProperties .identifier ps = ps := by
  match ps with
  | [] => rw [substProperties]
  | p :: ps => rw [substProperties, substProperty_identifier p, substProperties_identifier ps]

theorem substSlicer_identifier (o : Option Expr) : substSlicer .identifier o = o := by
  match o with
  | none => rw [substSlicer]
  | some e => rw [substSlicer, subst_identifier e]

theorem substSelect_identifier (s : Select Expr) : substSelect .identifier s = s := by
  match s with
  | ⟨definitions, axes, source, slicer⟩ =>
    rw [substSelect, substAll_identifier definitions, substAxes_identifier axes,
      subst_identifier source, substSlicer_identifier slicer]

end

/-- An expression with another one in the place of every identifier with a unique name, targets of
casts excepted. -/
def replace (e : Expr) (name : String) (value : Expr) : Expr :=
  e.subst fun i => if i.uniqueName = name then value else .identifier i

end Expr

end Datacube
