/-
# QueryCost.Config.Json -- configurations in JSON

A configuration is written as an object with both of its records; ceilings that
are not set are left out.  It is read with the rules of records in JSON, and an
absent value is `null`.
-/
import QueryCost.Config.Format
import QueryCost.Json.Record
import QueryCost.Json.Writer

namespace QueryCost.Config

open QueryCost.Analysis

set_option autoImplicit false

def settingsToJson (s : Settings) : Json :=
  .object [("max_body_size", .ofNat s.maxBodySize),
    ("fail_action", .string s.enforcement.text)]

def rulesToJson (r : Rules Float) : Json :=
  .object ([("field_costs", .ofLedger r.tariff.fieldCosts),
      ("default_cost", .double r.tariff.defaultCost),
      ("depth_cost_factor", .double r.tariff.depthFactor),
      ("list_cost_factor", .double r.tariff.listFactor)]
    ++ r.ceilings.cost.toList.map (fun x => ("max_cost", .double x))
    ++ r.ceilings.depth.toList.map (fun n => ("max_depth", .ofNat n)))

def toJson (c : Config) : Json :=
  .object [("settings", settingsToJson c.settings), ("cost", rulesToJson c.rules)]

def jsonFormat : Format Json.Written where
  record? := Json.Written.record?
  amount? := Json.Written.amount?
  size? := Json.Written.size?
  ledger? := Json.Written.ledger?
  choice? := Json.Written.choice?
  isAbsent? w := some w.isNull

/-- The configuration that a JSON text is, valid or not. -/
def ofJsonText? (text : String) : Option Config :=
  (Json.Written.ofText? none text.toList).bind jsonFormat.config?

end QueryCost.Config
