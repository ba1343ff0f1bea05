/-
# QueryCost.Json.Record -- reading records from written JSON

A record is written as an object, with its fields under their names, or as an
array, with its fields in their order.  In an object other members are passed over
undecoded, but the name of every member must be text.

A reader of a leaf answers nothing for a leaf of another kind.
-/
import QueryCost.Json.Denotation
import QueryCost.Record

namespace QueryCost.Json.Written

set_option autoImplicit false

/-- The members of an object, all of whose names are text. -/
def namedMembers? (members : List (Option String × Written)) : Option (List (String × Written)) :=
  members.mapM fun m => m.1.map (·, m.2)

/-- The fields of a record, each with the names it goes by. -/
def record? (fields : List (List String)) : Written → Option (List (Option Written))
  | .object members => (namedMembers? members).bind (Record.ofMembers? fields)
  | .array items => Record.ofItems? fields items
  | _ => none

/-! ## Leaves -/

def amount? : Written → Option Float
  | .number n => n.stepwise?
  | _ => none

def size? : Written → Option Nat
  | .number n => sizeOf? n
  | _ => none

def text? : Written → Option String
  | .string text => text
  | _ => none

/-- A choice between names is a name, or an object with `null` under it. -/
def choice? : Written → Option String
  | .string text => text
  | .object [(name, .null)] => name
  | _ => none

/-- Amounts under names; of several under one name the last stays. -/
def ledger? : Written → Option (Ledger Float)
  | .object members => do
      let members ← namedMembers? members
      let amounts ← members.mapM fun m => m.2.amount?.map (m.1, ·)
      return Ledger.ofList amounts
  | _ => none

def isNull : Written → Bool
  | .null => true
  | _ => false

/-- A field that may be missing or `null`. -/
def optional? {α : Type} (read : Written → Option α) : Option Written → Option (Option α)
  | none => some none
  | some w => if w.isNull then some none else (read w).map some

end QueryCost.Json.Written
