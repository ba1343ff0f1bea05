/-
# QueryCost.Violation -- violations as GraphQL clients see them

A violation has a code, a message and, where a ceiling was passed, the value that
was measured and the ceiling.  It is written as an object of its own, and a list
of violations is also written as the errors of a GraphQL response.
-/
import QueryCost.Json.Record
import QueryCost.Json.Writer

namespace QueryCost

set_option autoImplicit false

inductive Violation.Code
  | depthExceeded | costExceeded | parseError | invalidRequest
  deriving DecidableEq, Repr

namespace Violation.Code

def text : Code → String
  | .depthExceeded => "DEPTH_EXCEEDED"
  | .costExceeded => "COST_EXCEEDED"
  | .parseError => "PARSE_ERROR"
  | .invalidRequest => "INVALID_REQUEST"

def ofText? : String → Option Code
  | "DEPTH_EXCEEDED" => some .depthExceeded
  | "COST_EXCEEDED" => some .costExceeded
  | "PARSE_ERROR" => some .parseError
  | "INVALID_REQUEST" => some .invalidRequest
  | _ => none

end Violation.Code

/-- The measured value and the ceiling. -/
structure Violation.Figures where
  actual : Option Float
  max : Option Float
  deriving BEq

structure Violation where
  code : Violation.Code
  message : String
  figures : Option Violation.Figures
  deriving BEq

namespace Violation

/-! ## Writing -/

/-- A member that is left out if there is no value. -/
def givenAmount (name : String) (x : Option Float) : List (String × Json) :=
  x.toList.map fun x => (name, .double x)

def Figures.toJson (f : Figures) : Json :=
  .object (givenAmount "actual" f.actual ++ givenAmount "max" f.max)

def toJson (v : Violation) : Json :=
  .object ([("code", .string v.code.text)]
    ++ v.figures.toList.map (fun f => ("extensions", f.toJson))
    ++ [("message", .string v.message)])

/-- An entry of the errors of a response. -/
def toError (v : Violation) : Json :=
  .object
    [("extensions", .object (givenAmount "actual" (v.figures.bind (·.actual))
        ++ [("code", .string v.code.text)]
        ++ givenAmount "max" (v.figures.bind (·.max)))),
     ("message", .string v.message)]

/-- The response that tells a client of violations. -/
def errorResponse (violations : List Violation) : Json :=
  .object [("errors", .array (violations.map toError))]

/-! ## Reading -/

/-- Figures in an array are both there. -/
def Figures.ofWritten? (w : Json.Written) : Option Figures :=
  match w, w.record? [["actual"], ["max"]] with
  | .array items, some [actual, max] => do
      if items.length = 2 then
        let actual ← Json.Written.optional? (·.amount?) actual
        let max ← Json.Written.optional? (·.amount?) max
        return ⟨actual, max⟩
      else none
  | _, some [actual, max] => do
      let actual ← Json.Written.optional? (·.amount?) actual
      let max ← Json.Written.optional? (·.amount?) max
      return ⟨actual, max⟩
  | _, _ => none

def ofWritten? (w : Json.Written) : Option Violation :=
  match w.record? [["code"], ["message"], ["extensions"]] with
  | some [some code, some message, figures] => do
      let code ← code.choice?.bind Code.ofText?
      let message ← message.text?
      let figures ← Json.Written.optional? Figures.ofWritten? figures
      return ⟨code, message, figures⟩
  | _ => none

/-- The violation that a JSON text is. -/
def ofText? (text : String) : Option Violation :=
  (Json.Written.ofText? none text.toList).bind ofWritten?

end Violation

end QueryCost
