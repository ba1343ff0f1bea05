/-
# QueryCost.Config -- how queries are judged

A configuration holds the rules of the analysis and the settings for request
bodies: how long a body may be, and whether a violation blocks the request.  A
configuration is valid if bodies may have some length and every number in it is
finite and not negative.
-/
import QueryCost.Analysis.Tariff
import QueryCost.Decimal.Layout

namespace QueryCost

open QueryCost.Analysis

set_option autoImplicit false

/-- What a violation does to a request. -/
inductive Enforcement
  | block | allow
  deriving DecidableEq, Repr

namespace Enforcement

def text : Enforcement → String
  | .block => "block"
  | .allow => "allow"

def ofText? : String → Option Enforcement
  | "block" => some .block
  | "allow" => some .allow
  | _ => none

end Enforcement

structure Settings where
  maxBodySize : Nat
  enforcement : Enforcement
  deriving DecidableEq

def Settings.default : Settings :=
  ⟨1048576, .block⟩

/-- Every field costs one; a list of a given size costs ten times as much. -/
def defaultRules : Rules Float :=
  ⟨⟨∅, 1.0, 1.0, 10.0⟩, .none⟩

structure Config where
  settings : Settings
  rules : Rules Float

namespace Config

def default : Config :=
  ⟨.default, defaultRules⟩

/-! ## Validity -/

/-- A place in a configuration that holds an amount. -/
inductive AmountKey
  | defaultCost | depthFactor | listFactor | costCeiling
  | fieldCost (name : String)
  deriving DecidableEq

def AmountKey.text : AmountKey → String
  | .defaultCost => "default_cost"
  | .depthFactor => "depth_cost_factor"
  | .listFactor => "list_cost_factor"
  | .costCeiling => "max_cost"
  | .fieldCost name => "field_costs[" ++ name ++ "]"

/-- Why a configuration is not valid. -/
inductive Problem
  | noBodySize
  | badAmount (key : AmountKey) (x : Float)

def Problem.message : Problem → String
  | .noBodySize => "Invalid configuration: settings.max_body_size must be greater than zero"
  | .badAmount key x =>
      "Invalid configuration: " ++ key.text ++ " must be a finite, non-negative number (got "
        ++ Decimal.messageText x ++ ")"

/-- Finite and not negative; negative zero is not negative. -/
def isAmount (x : Float) : Bool :=
  x.isFinite && decide (0.0 ≤ x)

/-- The amounts of some rules, in the order in which they are looked at. -/
def amounts (r : Rules Float) : List (AmountKey × Float) :=
  [(.defaultCost, r.tariff.defaultCost), (.depthFactor, r.tariff.depthFactor),
   (.listFactor, r.tariff.listFactor)]
    ++ r.ceilings.cost.toList.map (fun x => (.costCeiling, x))
    ++ r.tariff.fieldCosts.entries.map (fun e => (.fieldCost e.1, e.2))

/-- The first amount of some rules that is none. -/
def rulesProblem? (r : Rules Float) : Option Problem :=
  ((amounts r).find? fun a => !isAmount a.2).map fun a => .badAmount a.1 a.2

def problem? (c : Config) : Option Problem :=
  if c.settings.maxBodySize = 0 then some .noBodySize else rulesProblem? c.rules

end Config

end QueryCost
