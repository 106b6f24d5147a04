import Datacube.Query.Expr
import Datacube.Query.Search

/-!
# The functions and operators of expressions

The meaning of an expression is its value in a context.  Functions and operators combine the
meanings of their arguments; an argument also brings its expression, which is shown in faults
and, for the target of a cast, is all that counts.

## Main definitions

* `Meaning`, `Argument` — meanings, and expressions with their meanings.
* `Meaning.crossjoin`, `filter`, `membersOf`, … — the functions and operators.
* `Provider.apply` — the meaning of a call.
-/

namespace Datacube

/-- The value of an expression in a context. -/
abbrev Meaning (m : Type → Type) := Context → m Value

/-- An argument of a call. -/
structure Argument (m : Type → Type) where
  expr : Expr
  meaning : Meaning m

variable {m : Type → Type} [Monad m] [MonadExcept Fault m]

/-- The fault of an operation that is not supported. -/
def unsupported {α : Type} (operation : String) : m α := throw (.unsupportedOperation operation)

namespace Meaning

/-! ### Sets and tuples -/

/-- The values of meanings, in order. -/
def all (meanings : List (Meaning m)) (c : Context) : m (List Value) :=
  meanings.mapM fun meaning => meaning c

/-- The set of the elements of all arguments. -/
def braces (meanings : List (Meaning m)) : Meaning m := fun c => do
  return .set ((← all meanings c).flatMap Value.elements)

/-- The tuple of the arguments. -/
def tuple (meanings : List (Meaning m)) : Meaning m := fun c => do
  return .tuple (← all meanings c)

/-- The tuples of an element of the one and an element of the other set, in which the second
component varies fastest.  Tuples are concatenated. -/
def pairs (xs ys : List Value) : List Value :=
  xs.flatMap fun x => ys.map fun y => .tuple (x.components ++ y.components)

@[simp] theorem pairs_nil (ys : List Value) : pairs [] ys = [] := rfl

@[simp] theorem pairs_cons (x : Value) (xs ys : List Value) :
    pairs (x :: xs) ys = (ys.map fun y => .tuple (x.components ++ y.components)) ++ pairs xs ys :=
  rfl

theorem length_pairs (xs ys : List Value) : (pairs xs ys).length = xs.length * ys.length := by
  induction xs with
  | nil => simp
  | cons x xs ih => simp [ih, Nat.succ_mul, Nat.add_comm]

/-- All pairs of elements of two sets. -/
def crossjoin (lhs rhs : Meaning m) : Meaning m := fun c => do
  let xs ← lhs c
  let ys ← rhs c
  return .set (pairs xs.elements ys.elements)

/-- The elements that pass a test, tested in order. -/
def keep {α : Type} (test : α → m Bool) : List α → m (List α)
  | [] => pure []
  | a :: as => do
    let passes ← test a
    let rest ← keep test as
    return if passes then a :: rest else rest

/-- The elements of a set for which the predicate is the truth value true when they are the
current member. -/
def filter (set predicate : Meaning m) : Meaning m := fun c => do
  let elements := (← set c).elements
  return .set (← keep (fun element => do return (← predicate (c.within element)).isTrue) elements)

/-- The element that the filter around the expression is testing. -/
def currentMember : Meaning m := fun c => pure (c.current.getD .null)

/-! ### Numbers and truth values -/

/-- An arithmetic operation.  Without two numbers there is no value. -/
def arithmetic (operator : Arithmetic) (lhs rhs : Meaning m) : Meaning m := fun c => do
  let x ← lhs c
  let y ← rhs c
  return match x.toNumber?, y.toNumber? with
    | some x, some y => .number (operator.apply x y)
    | _, _ => .null

/-- The negative of a number. -/
def negate (meaning : Meaning m) : Meaning m := fun c => do
  return match (← meaning c).toNumber? with
    | some x => .number (-x)
    | none => .null

/-- The comparison that a sign stands for.  No comparison holds of what is no number. -/
def comparison? : String → Option (Float → Float → Bool)
  | "<" => some fun x y => x < y
  | "<=" => some fun x y => x ≤ y
  | ">" => some fun x y => y < x
  | ">=" => some fun x y => y ≤ x
  | _ => none

/-- A comparison of two numbers. -/
def compare (sign : String) (test : Float → Float → Bool) (lhs rhs : Meaning m) : Meaning m :=
  fun c => do
    let x ← lhs c
    let y ← rhs c
    match x.toNumber?, y.toNumber? with
    | some x, some y => return .boolean (test x y)
    | _, _ => unsupported ("Comparing " ++ x.toText ++ " " ++ sign ++ " " ++ y.toText
        ++ ", both operands must be numeric")

/-- The conjunction.  The second operand is not evaluated if the first one is false. -/
def and (lhs rhs : Meaning m) : Meaning m := fun c => do
  if (← lhs c).toBoolean then return .boolean (← rhs c).toBoolean
  else return .boolean false

/-- The name of a member. -/
def name (meaning : Meaning m) : Meaning m := fun c => do
  let value ← meaning c
  match value.member? with
  | some member => return .text member.label.name
  | none => unsupported ("Name of " ++ value.toText)

/-- The word that the target of a cast is, if it is one. -/
def castTarget? : Expr → Option String
  | .literal (.symbol word) => some word
  | .literal (.text word) => some word
  | .identifier identifier => some identifier.name
  | _ => none

/-- A cast.  The only type that can be cast to is that of numbers. -/
def cast (value : Meaning m) (target : Expr) : Meaning m := fun c => do
  match castTarget? target with
  | none => throw (.unsupportedCast target.text)
  | some word =>
    if sameLetters word "NUMERIC" then
      let v ← value c
      match v.toNumber? with
      | some x => return .number x
      | none => unsupported ("Cannot cast " ++ v.toText ++ " to NUMERIC")
    else throw (.unsupportedCast word)

end Meaning

/-! ### Members of schema objects -/

namespace Provider

variable (p : Provider m)

/-- All members of the levels of a hierarchy. -/
def hierarchyMembers (cube : Cube) (hierarchy : Hierarchy) : m (List Member) := do
  return (← (← p.levels cube hierarchy).mapM (p.levelMembers cube)).flatten

/-- All members of the hierarchies of a dimension. -/
def dimensionMembers (cube : Cube) (dimension : Dimension) : m (List Member) := do
  return (← (← p.hierarchies cube dimension).mapM (p.hierarchyMembers cube)).flatten

/-- All members of a dimension, a hierarchy or a level. -/
def allMembers (cube : Cube) : SchemaObject → m (List Member)
  | .dimension d => p.dimensionMembers cube d
  | .hierarchy h => p.hierarchyMembers cube h
  | .level l => p.levelMembers cube l
  | o => unsupported ("Members of the " ++ o.kind ++ " " ++ o.uniqueName)

/-- The set of all members of the object that the argument is. -/
def membersOf (argument : Argument m) : Meaning m := fun c => do
  let cube ← c.requireCube
  match ← argument.meaning c with
  | .object o => return .set ((← p.allMembers cube o).map fun a => .object (.member a))
  | _ => unsupported ("Members of " ++ argument.expr.text)

/-! ### Calls -/

/-- The meaning of a function by its name, which is given in lower case.  The call itself is
shown in faults. -/
def function (key name text : String) (args : List (Argument m)) : Meaning m :=
  match key, args with
  | "\x7b\x7d", args => Meaning.braces (args.map Argument.meaning)
  | "()", [a] => a.meaning
  | "()", args => Meaning.tuple (args.map Argument.meaning)
  | "crossjoin", [a, b] => Meaning.crossjoin a.meaning b.meaning
  | "members", [a] => p.membersOf a
  | "hierarchize", [a] | "hierarchize", [a, _] => a.meaning
  | "filter", [a, b] => Meaning.filter a.meaning b.meaning
  | "cast", [a, b] => Meaning.cast a.meaning b.expr
  | "currentmember", [] | "currentmember", [_] => Meaning.currentMember
  | "name", [a] => Meaning.name a.meaning
  | "-", [a] => Meaning.negate a.meaning
  | "and", [a, b] => Meaning.and a.meaning b.meaning
  | ":", _ => fun _ => unsupported ("The range operator in " ++ text)
  | _, args => fun _ => unsupported
      ("The function " ++ name ++ " with " ++ args.length.repr ++ " arguments in " ++ text)

/-- The meaning of a call.  Letter case does not matter in names, and the signs of arithmetic
operators and comparisons are names of functions with two arguments. -/
def apply (name text : String) (args : List (Argument m)) : Meaning m :=
  let key := lowerCase name
  match args with
  | [a, b] =>
    match Arithmetic.ofSymbol? key, Meaning.comparison? key with
    | some operator, _ => Meaning.arithmetic operator a.meaning b.meaning
    | none, some test => Meaning.compare key test a.meaning b.meaning
    | none, none => p.function key name text args
  | _ => p.function key name text args

end Provider

end Datacube
