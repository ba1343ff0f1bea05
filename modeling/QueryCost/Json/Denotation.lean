/-
# QueryCost.Json.Denotation -- the value that written JSON denotes

An integer that fits 64 bits, signed or not, is kept; any other number is the
double that it comes to step by step, and there is none for a number beyond the
range of doubles.
Of several members of one name the last one counts, and the members of a value
stand in the order of their names.  Negative zero is a double.
-/
import QueryCost.Decimal.Stepwise
import QueryCost.Json
import QueryCost.Json.Written

namespace QueryCost.Json

open QueryCost.Decimal

set_option autoImplicit false

/-- The size that a numeral denotes: an integer from zero on that fits 64 bits. -/
def sizeOf? (n : Numeral) : Option Nat :=
  if n.isInteger && !n.negative && n.natural ≤ maxSize then some n.natural else none

def numberOf? (n : Numeral) : Option Json :=
  if n.isInteger && !n.negative && n.natural ≤ maxSize then some (.integer n.natural)
  else if n.isInteger && n.negative && 0 < n.natural && n.natural ≤ UInt64.size / 2 then
    some (.integer (-n.natural))
  else n.stepwise?.map .double

namespace Written

mutual

def denote? : Written → Option Json
  | .null => some .null
  | .boolean b => some (.boolean b)
  | .number n => numberOf? n
  | .string text => text.map .string
  | .array items => (denoteItems? items).map .array
  | .object members => (denoteMembers? members).map fun ms => .object (Ledger.ofList ms).entries

def denoteItems? : List Written → Option (List Json)
  | [] => some []
  | item :: rest => do
      let item ← denote? item
      let rest ← denoteItems? rest
      return item :: rest

def denoteMembers? : List (Option String × Written) → Option (List (String × Json))
  | [] => some []
  | (name, value) :: rest => do
      let name ← name
      let value ← denote? value
      let rest ← denoteMembers? rest
      return (name, value) :: rest

end

end Written

end QueryCost.Json
