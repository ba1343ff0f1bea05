/-
# QueryCost.Config.Format -- reading a configuration in any format

A configuration is a record of records, and it is read in the same way from every
format that can tell a record, an amount, a size, a ledger, a choice and an absent
value.  Every field may be missing and then has its default value.  The fields of
the rules go by two names each, one with underscores and one with capitals; all
other fields have one name.  A ceiling may be given as absent.
-/
import QueryCost.Config
import QueryCost.Record

namespace QueryCost.Config

open QueryCost.Analysis
open QueryCost.Record (orDefault)

set_option autoImplicit false

/-- How the parts of a configuration are told from the nodes of a format; each reader answers
nothing for a node of another kind. -/
structure Format (α : Type) where
  record? : List (List String) → α → Option (List (Option α))
  amount? : α → Option Float
  size? : α → Option Nat
  ledger? : α → Option (Ledger Float)
  /-- The name that is chosen. -/
  choice? : α → Option String
  /-- Whether a node stands for no value. -/
  isAbsent? : α → Option Bool

/-- The fields of the settings in their order. -/
def settingsFields : List (List String) :=
  [["max_body_size"], ["fail_action"]]

/-- The fields of the rules in their order, with both of their names. -/
def rulesFields : List (List String) :=
  [["field_costs", "fieldCosts"], ["default_cost", "defaultCost"],
   ["depth_cost_factor", "depthCostFactor"], ["list_cost_factor", "listCostFactor"],
   ["max_cost", "maxCost"], ["max_depth", "maxDepth"]]

/-- The fields of a configuration in their order. -/
def configFields : List (List String) :=
  [["settings"], ["cost"]]

namespace Format

variable {α : Type}

/-- A ceiling, which may be missing or absent. -/
def ceiling? {β : Type} (f : Format α) (read : α → Option β) : Option α → Option (Option β)
  | none => some none
  | some a => do
      if ← f.isAbsent? a then return none else some <$> read a

def settings? (f : Format α) (a : α) : Option Settings :=
  match f.record? settingsFields a with
  | some [size, action] => do
      let size ← orDefault Settings.default.maxBodySize f.size? size
      let action ← orDefault Settings.default.enforcement
        (fun a => (f.choice? a).bind Enforcement.ofText?) action
      return ⟨size, action⟩
  | _ => none

def rules? (f : Format α) (a : α) : Option (Rules Float) :=
  match f.record? rulesFields a with
  | some [fieldCosts, defaultCost, depthFactor, listFactor, maxCost, maxDepth] => do
      let tariff := defaultRules.tariff
      let fieldCosts ← orDefault tariff.fieldCosts f.ledger? fieldCosts
      let defaultCost ← orDefault tariff.defaultCost f.amount? defaultCost
      let depthFactor ← orDefault tariff.depthFactor f.amount? depthFactor
      let listFactor ← orDefault tariff.listFactor f.amount? listFactor
      let maxCost ← f.ceiling? f.amount? maxCost
      let maxDepth ← f.ceiling? f.size? maxDepth
      return ⟨⟨fieldCosts, defaultCost, depthFactor, listFactor⟩, ⟨maxCost, maxDepth⟩⟩
  | _ => none

/-- The configuration that a node holds, valid or not. -/
def config? (f : Format α) (a : α) : Option Config :=
  match f.record? configFields a with
  | some [settings, rules] => do
      let settings ← orDefault .default f.settings? settings
      let rules ← orDefault defaultRules f.rules? rules
      return ⟨settings, rules⟩
  | _ => none

end Format

end QueryCost.Config
