import Datacube.Engine.Basic

/-!
# Engines that serve tables

An engine whose collections are given as row sets.  A request is answered with the rows that
satisfy its restrictions, and every plan has the same result.

## Main definitions

* `TableEngine` — the tables.
* `TableEngine.answer` — the answer to a request.
-/

namespace Datacube

/-- The tables that are served.  Each may be a fault instead. -/
structure TableEngine where
  listings : Listing → Outcome RowSet
  /-- The result of every plan. -/
  result : Outcome RowSet

/-- The answer to a request. -/
def TableEngine.answer (e : TableEngine) : Request → Outcome RowSet
  | .list listing restrictions => do return (← e.listings listing).filter restrictions.admits
  | .execute _ => e.result

end Datacube
