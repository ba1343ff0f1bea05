/-
# QueryCost.Analysis.Walk -- charging a document in one pass

The walk goes through the definitions in their order and through selections depth
first.  Its state is the current depth, the types of the fields it is below, the
deepest level seen, the total and the amount under each qualified name.  Entering
a selection set deeper than the ceiling ends the walk at once; the ceiling on the
total is checked at the end.

Fragment spreads are not resolved: a fragment is charged where it is defined, and
once.
-/
import QueryCost.Analysis.Context
import QueryCost.Analysis.Tariff

namespace QueryCost.Analysis

open QueryCost.GraphQL

set_option autoImplicit false

/-- A ceiling that was passed: what was reached, and the ceiling. -/
inductive Excess (K : Type)
  | depth (reached limit : Nat)
  | cost (reached limit : K)
  deriving BEq

structure Walk (K : Type) where
  depth : Nat
  /-- The types of the enclosing fields, innermost first. -/
  types : List String
  deepest : Nat
  cost : K
  fields : Ledger K

/-- What is known of a document at the end of a walk. -/
structure Report (K : Type) where
  cost : K
  depth : Nat
  fields : Ledger K
  deriving BEq

namespace Walk

variable {K : Type} [Zero K] [One K] [Add K] [Mul K] [BEq K]

def start : Walk K :=
  ⟨0, [], 0, 0, ∅⟩

def currentType (w : Walk K) : String :=
  w.types.head?.getD unknownType

/-- Charge a field where the walk stands. -/
def chargeField (tariff : Tariff K) (field : Field) (w : Walk K) : Walk K :=
  let name := qualifiedName w.currentType field.name
  let charge := tariff.charge name w.depth field.isSized
  { w with cost := w.cost + charge, fields := w.fields.add name charge }

def push (type : String) (w : Walk K) : Walk K :=
  { w with types := type :: w.types }

def pop (w : Walk K) : Walk K :=
  { w with types := w.types.tail }

/-- Enter a selection set. -/
def enter (ceiling : Option Nat) (w : Walk K) : Except (Excess K) (Walk K) :=
  let depth := w.depth + 1
  match ceiling with
  | some limit =>
      if limit < depth then .error (.depth depth limit)
      else .ok { w with depth, deepest := max w.deepest depth }
  | none => .ok { w with depth, deepest := max w.deepest depth }

def leave (w : Walk K) : Walk K :=
  { w with depth := w.depth - 1 }

mutual

def selection (rules : Rules K) (w : Walk K) : Selection → Except (Excess K) (Walk K)
  | .leaf field => .ok (w.chargeField rules.tariff field)
  | .branch field selections => do
      let w := (w.chargeField rules.tariff field).push field.typeBelow
      let w ← w.enter rules.ceilings.depth
      let w ← w.selections rules selections
      return w.leave.pop
  | .inlineFragment _ _ selections => do
      let w ← w.enter rules.ceilings.depth
      let w ← w.selections rules selections
      return w.leave
  | .fragmentSpread _ _ => .ok w

def selections (rules : Rules K) (w : Walk K) : List Selection → Except (Excess K) (Walk K)
  | [] => .ok w
  | s :: rest => do
      let w ← w.selection rules s
      w.selections rules rest

end

/-- A selection set with all that is in it. -/
def selectionSet (rules : Rules K) (w : Walk K) (s : List Selection) :
    Except (Excess K) (Walk K) := do
  let w ← w.enter rules.ceilings.depth
  let w ← w.selections rules s
  return w.leave

def definition (rules : Rules K) (w : Walk K) : Definition → Except (Excess K) (Walk K)
  | .operation head s => do
      let w ← (w.push (rootType head)).selectionSet rules s
      return w.pop
  | .fragment _ s => w.selectionSet rules s
  | .typeSystem => .ok w

def document (rules : Rules K) (d : Document) : Except (Excess K) (Walk K) :=
  d.definitions.foldlM (definition rules) start

end Walk

/-- Charge a document and hold it to the ceilings. -/
def analyze {K : Type} [Zero K] [One K] [Add K] [Mul K] [BEq K] [LT K] [DecidableLT K]
    (rules : Rules K) (d : Document) : Except (Excess K) (Report K) := do
  let w ← Walk.document rules d
  match rules.ceilings.cost with
  | some limit =>
      if limit < w.cost then .error (.cost w.cost limit)
      else return ⟨w.cost, w.deepest, w.fields⟩
  | none => return ⟨w.cost, w.deepest, w.fields⟩

end QueryCost.Analysis
