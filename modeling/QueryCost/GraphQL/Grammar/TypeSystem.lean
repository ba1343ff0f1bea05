/-
# QueryCost.GraphQL.Grammar.TypeSystem -- definitions of types

Schemas, types and directives are recognised and passed over.  A definition may
carry a description, as may the fields, arguments and values in it; an extension
carries none and must add something.  Braces hold at least one item, except that in
the extension of a schema they may be empty, and then add nothing.
-/
import QueryCost.GraphQL.Grammar.Value

namespace QueryCost.GraphQL.Grammar

set_option autoImplicit false

/-! ## Parts -/

/-- A description, if there is one. -/
def description : Grammar Unit := do
  discard (optionally isString advance)

def startsDescribed (t : Token) : Bool :=
  isName t || isString t

def constantDirectives : Grammar Bool := do
  return !(← directives true nestingLimit).isEmpty

/-- A name, its type, a default value and directives: an argument or an input field. -/
def inputValue : Grammar Unit := do
  description
  discard name
  expect .colon
  discard (typeReference nestingLimit)
  discard (defaultValue nestingLimit)
  discard constantDirectives

def argumentDefinitions : Grammar Unit :=
  discard (optionally (isPunctuator .parenLeft)
    (enclosed .parenLeft startsDescribed inputValue .parenRight))

def fieldDefinition : Grammar Unit := do
  description
  discard name
  argumentDefinitions
  expect .colon
  discard (typeReference nestingLimit)
  discard constantDirectives

def enumValue : Grammar Unit := do
  description
  match ← next? with
  | some (.name "true") | some (.name "false") | some (.name "null") => unexpected
  | _ => discard name
  discard constantDirectives

/-- The kind of a root operation and, after a colon, its type, which may be missing. -/
def rootOperation : Grammar Unit := do
  match ← next? with
  | some (.name "query") | some (.name "mutation") | some (.name "subscription") => advance
  | _ => unexpected
  expect .colon
  discard (optionally isName name)

/-- Items in braces, or nothing; answers whether there were any. -/
def body (starts : Token → Bool) (item : Grammar Unit) : Grammar Bool := do
  return (← optionally (isPunctuator .braceLeft)
    (enclosed .braceLeft starts item .braceRight)).isSome

/-- The root operations that an extension adds; empty braces add none. -/
def addedRootOperations : Grammar Bool := do
  if ← sees .braceLeft then
    advance
    let added ← many isName rootOperation
    expect .braceRight
    return !added.isEmpty
  else return false

/-- One item, then more of them behind separators; one separator may stand in front. -/
def separatedBy (p : Punctuator) (item : Grammar Unit) : Grammar Unit := do
  discard (optionally (isPunctuator p) advance)
  item
  discard (many (isPunctuator p) do
    advance
    item)

def interfaces : Grammar Bool := do
  return (← optionally (isNamed "implements") do
    advance
    separatedBy .ampersand (discard name)).isSome

def unionMembers : Grammar Bool := do
  return (← optionally (isPunctuator .equals) do
    advance
    separatedBy .pipe (discard name)).isSome

def directiveLocations : List String :=
  ["QUERY", "MUTATION", "SUBSCRIPTION", "FIELD", "FRAGMENT_DEFINITION", "FRAGMENT_SPREAD",
   "INLINE_FRAGMENT", "VARIABLE_DEFINITION", "SCHEMA", "SCALAR", "OBJECT", "FIELD_DEFINITION",
   "ARGUMENT_DEFINITION", "INTERFACE", "UNION", "ENUM", "ENUM_VALUE", "INPUT_OBJECT",
   "INPUT_FIELD_DEFINITION"]

def directiveLocation : Grammar Unit := do
  match ← next? with
  | some (.name text) => if text ∈ directiveLocations then advance else unexpected
  | _ => unexpected

/-! ## Definitions and extensions -/

/-- The kinds of definition that have an extension form. -/
inductive TypeKind
  | schema | scalar | object | interface | union | enum | input
  deriving DecidableEq, Repr

def TypeKind.ofKeyword? : String → Option TypeKind
  | "schema" => some .schema
  | "scalar" => some .scalar
  | "type" => some .object
  | "interface" => some .interface
  | "union" => some .union
  | "enum" => some .enum
  | "input" => some .input
  | _ => none

inductive Form
  | definition | extension
  deriving DecidableEq, Repr

/-- What follows the keyword and the name; answers whether there was anything. -/
def parts (form : Form) : TypeKind → Grammar Bool
  | .schema => do
      let directed ← constantDirectives
      let filled ← match form with
        | .definition => body isName rootOperation
        | .extension => addedRootOperations
      return directed || filled
  | .scalar => constantDirectives
  | .object | .interface => do
      let implementing ← interfaces
      let directed ← constantDirectives
      let filled ← body startsDescribed fieldDefinition
      return implementing || directed || filled
  | .union => do
      let directed ← constantDirectives
      let filled ← unionMembers
      return directed || filled
  | .enum => do
      let directed ← constantDirectives
      let filled ← body startsDescribed enumValue
      return directed || filled
  | .input => do
      let directed ← constantDirectives
      let filled ← body startsDescribed inputValue
      return directed || filled

/-- A definition or an extension from its keyword on. -/
def typeFrom (form : Form) (kind : TypeKind) : Grammar Bool := do
  discard name
  if kind = .schema then parts form kind
  else do
    discard name
    parts form kind

def directiveDefinition : Grammar Unit := do
  discard name
  expect .at
  discard name
  argumentDefinitions
  discard (optionally (isNamed "repeatable") advance)
  expectName "on"
  separatedBy .pipe directiveLocation

/-- A definition that starts with a keyword of the type system. -/
def typeSystemDefinition (keyword : String) : Grammar Definition := do
  match TypeKind.ofKeyword? keyword with
  | some kind => discard (typeFrom .definition kind)
  | none => if keyword = "directive" then directiveDefinition else unexpected
  return .typeSystem

def isTypeSystemKeyword (keyword : String) : Bool :=
  keyword == "directive" || (TypeKind.ofKeyword? keyword).isSome

/-- A definition behind a description; without one the description itself does not fit. -/
def describedDefinition : Grammar Definition := do
  match ← second? with
  | some (.name keyword) =>
      if isTypeSystemKeyword keyword then do
        advance
        typeSystemDefinition keyword
      else unexpected
  | _ => unexpected

/-- An extension; one of nothing that can be extended does not fit itself. -/
def extension : Grammar Definition := do
  match ← second? with
  | some (.name keyword) =>
      match TypeKind.ofKeyword? keyword with
      | some kind => do
          advance
          if ← typeFrom .extension kind then return .typeSystem else unexpected
      | none => unexpected
  | _ => unexpected

end QueryCost.GraphQL.Grammar
