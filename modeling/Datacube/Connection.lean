import Datacube.Cells.CellSet
import Datacube.Plan.OfAxes
import Datacube.Store

/-!
# Connections

A connection to the cubes of an engine.  A statement is evaluated against the store of the
connection, a plan is made of its axes, the engine executes the plan, and the result is presented
as a cell set.

## Main definitions

* `Config` — what a connection is made for.
* `Store.explain`, `Store.execute` — the plan and the result of a statement.
* `Connection` — a connection with its store and engine; `Connection.run`, `setLocale`.
-/

namespace Datacube

/-- What a connection is made for. -/
structure Config where
  /-- The catalog whose cubes are queried. -/
  catalog : String := "LdCatalog"
  /-- The schema whose cubes are queried. -/
  schema : String := "LdSchema"
  /-- The data source, if the engine serves several. -/
  database : Option String := none
  /-- The locale of captions and values. -/
  locale : Option String := none
  deriving DecidableEq, Repr

namespace Store

variable {σ : Type} (s : Store σ)

/-- The evaluated statement and its plan. -/
def planned (statement : Select Expr) : Session σ (Query × Plan) := do
  let query ← s.provider.evaluateQuery statement
  let plan ← s.provider.planOfAxes query.cube query.axes query.slicer
  return (query, plan)

/-- The plan of a statement, which is not executed. -/
def explain (statement : Select Expr) : Session σ Plan := do
  return (← s.planned statement).2

/-- The result of a statement. -/
def execute (statement : Select Expr) : Session σ CellSet := do
  let (query, plan) ← s.planned statement
  let result ← s.ask (.execute plan)
  ExceptT.mk (pure (CellSet.ofResult query plan result))

end Store

/-- A connection to the cubes of an engine. -/
structure Connection (σ : Type) where
  config : Config
  engine : Engine σ
  /-- The collections that are kept. -/
  shelves : Shelves := {}
  /-- The state of the engine. -/
  state : σ

namespace Connection

variable {σ α : Type} (c : Connection σ)

/-- The store of a connection. -/
def store : Store σ where
  engine := c.engine
  database := c.config.database
  catalog := c.config.catalog
  schema := c.config.schema

/-- The outcome of a use of the store, and the connection after it. -/
def run (use : Store σ → Session σ α) : Outcome α × Connection σ :=
  let (result, shelves, state) := (use c.store).run (c.shelves, c.state)
  (result, { c with shelves, state })

/-- The connection with another locale.  Captions depend on it, so everything that the store keeps
is discarded. -/
def setLocale (locale : Option String) : Connection σ :=
  { c with config := { c.config with locale }, shelves := c.shelves.reset }

end Connection

end Datacube
