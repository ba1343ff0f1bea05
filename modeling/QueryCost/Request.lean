/-
# QueryCost.Request -- GraphQL requests in JSON bodies

A body holds one request or a batch of requests.  A request is a record of a
query, which must be there, an operation name and variables.  Since a record may
also be written as an array of its fields, an array is first tried as a single
request and only then as a batch.

The body must begin with a value that denotes something; whether that value has a
shape is asked before what follows it is looked at.
-/
import QueryCost.Json.Record
import QueryCost.Text.Utf8

namespace QueryCost

set_option autoImplicit false

structure Request where
  query : String
  operationName : Option String
  variableValues : Option Json

/-- Why a body holds no requests. -/
inductive Request.Fault
  | notJson
  | noShape
  | emptyBatch
  deriving DecidableEq, Repr

namespace Request

def Fault.message : Fault → String
  | .notJson => "Invalid GraphQL request body: text is not well-formed JSON"
  | .noShape =>
      "Invalid GraphQL request body: data did not match any variant of untagged enum RequestBody"
  | .emptyBatch => "Empty batch request"

/-- The arrays and objects of a body that may stand in each other. -/
def nestingCeiling : Nat := 127

def fields : List (List String) :=
  [["query"], ["operationName"], ["variables"]]

def ofWritten? (w : Json.Written) : Option Request :=
  match w.record? fields with
  | some [some query, operationName, variableValues] => do
      let query ← query.text?
      let operationName ← Json.Written.optional? (·.text?) operationName
      let variableValues ← Json.Written.optional? (·.denote?) variableValues
      return ⟨query, operationName, variableValues⟩
  | _ => none

/-- The requests that a value holds, of either shape. -/
def ofValue? (w : Json.Written) : Option (List Request) :=
  match ofWritten? w, w with
  | some request, _ => some [request]
  | none, .array items => items.mapM ofWritten?
  | none, _ => none

/-- The requests that a body holds. -/
def ofBody (body : ByteArray) : Except Fault (List Request) :=
  match Json.Written.read? (some nestingCeiling) (Json.Token.scan (Text.Utf8.characters body)) with
  | none => .error .notJson
  | some (value, rest) =>
      if value.denote?.isNone then .error .notJson
      else
        match ofValue? value with
        | none => .error .noShape
        | some requests =>
            if !rest.isEmpty then .error .notJson
            else if requests.isEmpty then .error .emptyBatch
            else .ok requests

end Request

end QueryCost
