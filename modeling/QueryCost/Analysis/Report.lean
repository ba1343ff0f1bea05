/-
# QueryCost.Analysis.Report -- reports in JSON

A report is written as an object of three members and read back from one, or from
an array of the three.
-/
import QueryCost.Analysis.Walk
import QueryCost.Json.Record
import QueryCost.Json.Writer

namespace QueryCost.Analysis.Report

set_option autoImplicit false

def toJson (r : Report Float) : Json :=
  .object [("cost", .double r.cost), ("depth", .ofNat r.depth), ("fields", .ofLedger r.fields)]

def ofWritten? (w : Json.Written) : Option (Report Float) :=
  match w.record? [["cost"], ["depth"], ["fields"]] with
  | some [some cost, some depth, some fields] => do
      let cost ← cost.amount?
      let depth ← depth.size?
      let fields ← fields.ledger?
      return ⟨cost, depth, fields⟩
  | _ => none

/-- The report that a JSON text is. -/
def ofText? (text : String) : Option (Report Float) :=
  (Json.Written.ofText? none text.toList).bind ofWritten?

end QueryCost.Analysis.Report
