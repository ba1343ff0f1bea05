/-
# QueryCost.Refusal -- why a query is refused

A query is refused because its text is no document, or because a ceiling is
passed.  Each reason has a message and becomes a violation; the sizes in it turn
into the doubles nearest to them.
-/
import QueryCost.Analysis.Walk
import QueryCost.Decimal.Layout
import QueryCost.GraphQL.Grammar.Document
import QueryCost.Text.Digits
import QueryCost.Violation

namespace QueryCost

open QueryCost.Analysis
open QueryCost.GraphQL

set_option autoImplicit false

/-- A complaint about a place in a text. -/
structure Diagnostic where
  message : String
  offset : Nat
  deriving DecidableEq, Repr

namespace Diagnostic

def text (d : Diagnostic) : String :=
  d.message ++ " at offset " ++ Text.decimal d.offset

def ofFault (f : SyntaxFault) : Diagnostic :=
  match f.cause with
  | .unexpected => ⟨"text does not fit the grammar", f.offset⟩
  | .tooDeep => ⟨"nesting is too deep", f.offset⟩

/-- The first complaint, and how many there are besides. -/
def summary : List Diagnostic → String
  | [] => "invalid GraphQL document"
  | [d] => d.text
  | d :: rest => d.text ++ " (and " ++ Text.decimal rest.length ++ " more)"

end Diagnostic

namespace Analysis.Excess

def message : Excess Float → String
  | .depth reached limit =>
      "Query depth of " ++ Text.decimal reached ++ " exceeds maximum allowed depth of "
        ++ Text.decimal limit
  | .cost reached limit =>
      "Query cost of " ++ Decimal.messageText reached ++ " exceeds maximum allowed cost of "
        ++ Decimal.messageText limit

def toViolation (e : Excess Float) : Violation :=
  match e with
  | .depth reached limit =>
      ⟨.depthExceeded, e.message, some ⟨some (.ofNat reached), some (.ofNat limit)⟩⟩
  | .cost reached limit => ⟨.costExceeded, e.message, some ⟨some reached, some limit⟩⟩

end Analysis.Excess

inductive Refusal
  | unreadable (diagnostics : List Diagnostic)
  | excess (e : Excess Float)
  deriving BEq

namespace Refusal

/-- The message of the reason itself. -/
def reason : Refusal → String
  | .unreadable diagnostics => Diagnostic.summary diagnostics
  | .excess e => e.message

def message : Refusal → String
  | .unreadable diagnostics => "Parse error: " ++ Diagnostic.summary diagnostics
  | .excess e => e.message

def toViolation : Refusal → Violation
  | .unreadable diagnostics => ⟨.parseError, Diagnostic.summary diagnostics, none⟩
  | .excess e => e.toViolation

end Refusal

/-- Analyze a document given as text. -/
def analyzeText (rules : Rules Float) (text : String) : Except Refusal (Report Float) :=
  match Document.ofText text with
  | .error fault => .error (.unreadable [.ofFault fault])
  | .ok document =>
      match analyze rules document with
      | .error e => .error (.excess e)
      | .ok report => .ok report

end QueryCost
