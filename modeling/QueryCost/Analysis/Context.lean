/-
# QueryCost.Analysis.Context -- the type a field is charged under

The type of a field is not looked up in a schema; it is read off the document.
Right below an operation it is the operation's root type, below a field it is the
name of that field with a capital first letter, and in a fragment, where nothing
is known of the place it will be spread at, it is `Unknown`.  Names of GraphQL
are ASCII, so a capital letter is one of A to Z.
-/
import QueryCost.GraphQL.Document

namespace QueryCost.GraphQL

set_option autoImplicit false

/-- The name with its first letter made a capital. -/
def capitalize (name : String) : String :=
  match name.toList with
  | [] => ""
  | c :: rest => String.ofList (c.toUpper :: rest)

/-- A small letter becomes the capital 32 places before it, and nothing else changes. -/
theorem toNat_toUpper (c : Char) :
    c.toUpper.toNat = if 97 ≤ c.toNat ∧ c.toNat ≤ 122 then c.toNat - 32 else c.toNat := by
  have small : (c.val ≥ 'a'.val ∧ c.val ≤ 'z'.val) ↔ 97 ≤ c.toNat ∧ c.toNat ≤ 122 :=
    and_congr UInt32.le_iff_toNat_le UInt32.le_iff_toNat_le
  unfold Char.toUpper
  by_cases letter : c.val ≥ 'a'.val ∧ c.val ≤ 'z'.val
  · have code : (c.val + ('A'.val - 'a'.val)).toNat = c.toNat - 32 := by
      have offset : ('A'.val - 'a'.val).toNat = 2 ^ 32 - 32 := by decide
      have range := small.1 letter
      have value : c.toNat = c.val.toNat := rfl
      rw [UInt32.toNat_add, offset]
      omega
    rw [dif_pos letter, if_pos (small.1 letter)]
    exact code
  · rw [dif_neg letter, if_neg (mt small.2 letter)]

/-- Only the first letter is made a capital. -/
theorem toList_capitalize (name : String) :
    (capitalize name).toList = name.toList.modifyHead Char.toUpper := by
  unfold capitalize
  cases name.toList with
  | nil => rfl
  | cons c rest => exact String.toList_ofList

/-- The type at the root of an operation; a bare selection set is a query. -/
def rootType : Option OperationHead → String
  | some head =>
      match head.kind with
      | .query => "Query"
      | .mutation => "Mutation"
      | .subscription => "Subscription"
  | none => "Query"

/-- A root type is the keyword of its operation with a capital. -/
theorem rootType_eq_capitalize (head : Option OperationHead) :
    rootType head = capitalize ((head.map OperationHead.kind).getD .query).keyword := by
  cases head with
  | none => rfl
  | some head =>
      show rootType (some head) = capitalize head.kind.keyword
      rw [rootType]
      cases head.kind <;> rfl

def unknownType : String := "Unknown"

def qualifiedName (type name : String) : String :=
  type ++ "." ++ name

/-- The type that the fields below this one are charged under. -/
def Field.typeBelow (f : Field) : String :=
  capitalize f.name

/-- Arguments that bound the length of a list. -/
def sizeArguments : List String :=
  ["first", "last", "limit"]

/-- Whether a field asks for a list of a given size: the name of an own argument decides. -/
def Field.isSized (f : Field) : Bool :=
  f.arguments.any fun a => a.name ∈ sizeArguments

end QueryCost.GraphQL
