/-
# QueryCost.Analysis.Occurrence -- the fields of a document, one by one

An occurrence is one field of a document with what its charge depends on: the
depth at which it stands, which is the number of selection sets around it, the
type it is charged under, its name, and whether it asks for a list of a given
size.  The occurrences of a document stand in the order of its text, a field
before the fields below it.

The height of selections is the number of selection sets that stand in each other
below them, where the set that holds them does not count; of no selections it is
zero.
-/
import QueryCost.Analysis.Context
import QueryCost.Analysis.Tariff

namespace QueryCost.Analysis

open QueryCost.GraphQL

set_option autoImplicit false

structure Occurrence where
  depth : Nat
  type : String
  name : String
  sized : Bool
  deriving DecidableEq, Repr

namespace Occurrence

def qualifiedName (o : Occurrence) : String :=
  GraphQL.qualifiedName o.type o.name

def charge {K : Type} [Mul K] [One K] [BEq K] (tariff : Tariff K) (o : Occurrence) : K :=
  tariff.charge o.qualifiedName o.depth o.sized

def ofField (depth : Nat) (type : String) (f : Field) : Occurrence :=
  ⟨depth, type, f.name, f.isSized⟩

mutual

/-- The occurrences of a selection in a set at a depth, charged under a type. -/
def ofSelection (depth : Nat) (type : String) : Selection → List Occurrence
  | .leaf field => [ofField depth type field]
  | .branch field selections =>
      ofField depth type field :: ofSelections (depth + 1) field.typeBelow selections
  | .inlineFragment _ _ selections => ofSelections (depth + 1) type selections
  | .fragmentSpread _ _ => []

def ofSelections (depth : Nat) (type : String) : List Selection → List Occurrence
  | [] => []
  | s :: rest => ofSelection depth type s ++ ofSelections depth type rest

end

def ofDefinition : Definition → List Occurrence
  | .operation head selections => ofSelections 1 (rootType head) selections
  | .fragment _ selections => ofSelections 1 unknownType selections
  | .typeSystem => []

def ofDocument (d : Document) : List Occurrence :=
  d.definitions.flatMap ofDefinition

end Occurrence

/-! ## Nesting -/

mutual

def selectionHeight : Selection → Nat
  | .leaf _ => 0
  | .branch _ selections => selectionsHeight selections + 1
  | .inlineFragment _ _ selections => selectionsHeight selections + 1
  | .fragmentSpread _ _ => 0

def selectionsHeight : List Selection → Nat
  | [] => 0
  | s :: rest => max (selectionHeight s) (selectionsHeight rest)

end

def definitionHeight : Definition → Nat
  | .operation _ selections => selectionsHeight selections + 1
  | .fragment _ selections => selectionsHeight selections + 1
  | .typeSystem => 0

/-- The depth of a document: the most selection sets that stand in each other. -/
def documentHeight (d : Document) : Nat :=
  d.definitions.foldl (fun h definition => max h (definitionHeight definition)) 0

end QueryCost.Analysis
