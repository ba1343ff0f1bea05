/-
# QueryCost.GraphQL.Document -- documents of the GraphQL language

The tree that GraphQL text denotes.  Operations and fragments are kept whole.
Definitions of types are recognised by the grammar but nothing of them is kept,
since no query is charged for them.

A field with a selection set below it and one without are two constructors: the
first opens a level of nesting, the second does not, however the set is filled.
-/
namespace QueryCost.GraphQL

set_option autoImplicit false

/-! ## Values, arguments, directives -/

mutual

/-- A value as it is written; booleans, null and enum values are names. -/
inductive Value
  | variable (name : String)
  | number (text : String)
  | string (text : String)
  | name (text : String)
  | list (items : List Value)
  | object (members : List Argument)

/-- A name that may be given a value: an argument, or a member of an object. -/
inductive Argument
  | bare (name : String)
  | given (name : String) (value : Value)

end

def Argument.name : Argument → String
  | .bare name => name
  | .given name _ => name

structure Directive where
  name : String
  arguments : List Argument

/-! ## Operations and fragments -/

inductive TypeReference
  | named (name : String)
  | list (item : TypeReference)
  | nonNull (type : TypeReference)

structure VariableDefinition where
  name : String
  type : TypeReference
  default : Option Value
  directives : List Directive

/-- What a field carries besides the selections below it. -/
structure Field where
  aliasName : Option String
  name : String
  arguments : List Argument
  directives : List Directive

inductive Selection
  | leaf (field : Field)
  | branch (field : Field) (selections : List Selection)
  | inlineFragment (typeCondition : Option String) (directives : List Directive)
      (selections : List Selection)
  | fragmentSpread (name : String) (directives : List Directive)

inductive OperationKind
  | query | mutation | subscription
  deriving DecidableEq, Repr

def OperationKind.keyword : OperationKind → String
  | .query => "query"
  | .mutation => "mutation"
  | .subscription => "subscription"

/-- The part of an operation from its keyword on, up to its selections. -/
structure OperationHead where
  kind : OperationKind
  name : Option String
  variableDefinitions : List VariableDefinition
  directives : List Directive

structure FragmentHead where
  name : String
  typeCondition : String
  directives : List Directive

inductive Definition
  /-- An operation; without a head it is a bare selection set. -/
  | operation (head : Option OperationHead) (selections : List Selection)
  | fragment (head : FragmentHead) (selections : List Selection)
  | typeSystem

structure Document where
  definitions : List Definition

end QueryCost.GraphQL
