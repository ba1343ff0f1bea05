/-
# QueryCost.Analysis.Tariff -- what a field costs

A tariff names a cost for single fields, one for all others, a factor that is
raised to the nesting depth of a field, and a factor for fields that ask for a
list of a given size.  The numbers are of any kind that can be multiplied: the
program charges in doubles.

A charge is formed in a fixed order, base times depth multiplier times list
multiplier.  A depth factor of one is not raised to any power.
-/
import QueryCost.Analysis.Power
import QueryCost.Ledger

namespace QueryCost.Analysis

set_option autoImplicit false

structure Tariff (K : Type) where
  /-- Costs of single fields, by qualified name. -/
  fieldCosts : Ledger K
  defaultCost : K
  depthFactor : K
  listFactor : K

/-- Ceilings on the total cost and on the depth; what is not given is not checked. -/
structure Ceilings (K : Type) where
  cost : Option K
  depth : Option Nat

/-- No ceiling at all. -/
def Ceilings.none {K : Type} : Ceilings K :=
  ⟨.none, .none⟩

/-- What an analysis is held to. -/
structure Rules (K : Type) where
  tariff : Tariff K
  ceilings : Ceilings K

namespace Rules

variable {K : Type}

/-- The same tariff without ceilings. -/
def unlimited (r : Rules K) : Rules K :=
  { r with ceilings := .none }

def setFieldCost (r : Rules K) (name : String) (cost : K) : Rules K :=
  { r with tariff := { r.tariff with fieldCosts := r.tariff.fieldCosts.insert name cost } }

def setCostCeiling (r : Rules K) (cost : K) : Rules K :=
  { r with ceilings := { r.ceilings with cost := some cost } }

def setDepthCeiling (r : Rules K) (depth : Nat) : Rules K :=
  { r with ceilings := { r.ceilings with depth := some depth } }

end Rules

namespace Tariff

variable {K : Type}

def base (t : Tariff K) (name : String) : K :=
  (t.fieldCosts.get? name).getD t.defaultCost

def depthMultiplier [Mul K] [One K] [BEq K] (t : Tariff K) (depth : Nat) : K :=
  if t.depthFactor == 1 then 1 else power t.depthFactor depth

def listMultiplier [One K] (t : Tariff K) (sized : Bool) : K :=
  if sized then t.listFactor else 1

/-- The charge for a field of the given qualified name at a depth. -/
def charge [Mul K] [One K] [BEq K] (t : Tariff K) (name : String) (depth : Nat)
    (sized : Bool) : K :=
  t.base name * t.depthMultiplier depth * t.listMultiplier sized

end Tariff

end QueryCost.Analysis
