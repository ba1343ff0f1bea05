/-
# QueryCost.GraphQL.Grammar.Document -- reading a document from its text

A document is one definition or more.  Text is either read to its end or refused
at one place: the first lexeme that does not fit, or the end of the text.
-/
import QueryCost.GraphQL.Grammar.Selection
import QueryCost.GraphQL.Grammar.TypeSystem

namespace QueryCost.GraphQL

set_option autoImplicit false

namespace Grammar

def definition : Grammar Definition := do
  match ← next? with
  | some (.punctuator .braceLeft) => bareOperation
  | some (.name "query") => operation .query
  | some (.name "mutation") => operation .mutation
  | some (.name "subscription") => operation .subscription
  | some (.name "fragment") => fragment
  | some (.name "extend") => extension
  | some (.name keyword) => typeSystemDefinition keyword
  | some (.string _) => describedDefinition
  | _ => unexpected

def document : Grammar Document := do
  return ⟨← many1 (fun _ => true) definition⟩

end Grammar

/-- Why a text is no document, and the byte offset where that shows. -/
structure SyntaxFault where
  cause : Cause
  offset : Nat
  deriving DecidableEq, Repr

def Document.ofText (text : String) : Except SyntaxFault Document :=
  match Grammar.document (.ofList (Lexeme.ofText text)) with
  | .ok (document, _) => .ok document
  | .error fault => .error ⟨fault.cause, fault.place.getD text.utf8ByteSize⟩

end QueryCost.GraphQL
