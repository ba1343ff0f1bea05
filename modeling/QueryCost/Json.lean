/-
# QueryCost.Json -- JSON values

A number is an integer of 64 bits, signed or not, or a double; the two are told
apart because they are written differently.  The members of an object stand in
the order in which they are written.
-/
import QueryCost.Ledger

namespace QueryCost

set_option autoImplicit false

inductive Json
  | null
  | boolean (b : Bool)
  | integer (n : Int)
  | double (x : Float)
  | string (s : String)
  | array (items : List Json)
  | object (members : List (String × Json))

namespace Json

/-- The largest unsigned size. -/
def maxSize : Nat := UInt64.size - 1

def ofNat (n : Nat) : Json :=
  .integer n

/-- The amounts of a ledger under their names, in order. -/
def ofLedger (l : Ledger Float) : Json :=
  .object (l.entries.map fun e => (e.1, .double e.2))

end Json

end QueryCost
