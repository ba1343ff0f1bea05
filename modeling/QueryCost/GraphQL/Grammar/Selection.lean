/-
# QueryCost.GraphQL.Grammar.Selection -- operations and fragments

A name in front of a colon is an alias.  Three dots start a fragment spread if a
name other than `on` follows, and an inline fragment if `on`, a directive or a
brace follows; with anything else behind them they do not fit themselves.
-/
import QueryCost.GraphQL.Grammar.Value

namespace QueryCost.GraphQL.Grammar

set_option autoImplicit false

def startsSelection : Token → Bool
  | .name _ => true
  | .punctuator .spread => true
  | _ => false

/-- A field whose selections, if it has any, are read by `nested`. -/
def fieldWith (room : Nat) (nested : Grammar (List Selection)) : Grammar Selection := do
  let aliasName ←
    if (← second?) == some (.punctuator .colon) then do
      let aliasName ← name
      expect .colon
      pure (some aliasName)
    else pure none
  let name ← name
  let arguments ← arguments false room
  let directives ← directives false room
  let field : Field := ⟨aliasName, name, arguments, directives⟩
  if ← sees .braceLeft then return .branch field (← nested)
  else return .leaf field

def fragmentSpread (room : Nat) : Grammar Selection := do
  advance
  let name ← name
  let directives ← directives false room
  return .fragmentSpread name directives

def inlineFragmentWith (room : Nat) (nested : Grammar (List Selection)) : Grammar Selection := do
  advance
  let typeCondition ← optionally (isNamed "on") do
    advance
    name
  let directives ← directives false room
  return .inlineFragment typeCondition directives (← nested)

def selectionWith (room : Nat) (nested : Grammar (List Selection)) : Grammar Selection := do
  if ← sees .spread then
    match ← second? with
    | some (.name "on") => inlineFragmentWith room nested
    | some (.name _) => fragmentSpread room
    | some (.punctuator .at) => inlineFragmentWith room nested
    | some (.punctuator .braceLeft) => inlineFragmentWith room nested
    | _ => unexpected
  else fieldWith room nested

/-- Selections in braces, with so many levels left for them. -/
def selectionSet : (room : Nat) → Grammar (List Selection)
  | 0 => do
      expect .braceLeft
      faultHere .tooDeep
  | room + 1 =>
      enclosed .braceLeft startsSelection (selectionWith room (selectionSet room)) .braceRight

def variableDefinition : Grammar VariableDefinition := do
  expect .dollar
  let name ← name
  expect .colon
  let type ← typeReference nestingLimit
  let default ← defaultValue nestingLimit
  let directives ← directives true nestingLimit
  return ⟨name, type, default, directives⟩

def variableDefinitions : Grammar (List VariableDefinition) := do
  return (← optionally (isPunctuator .parenLeft)
    (enclosed .parenLeft (isPunctuator .dollar) variableDefinition .parenRight)).getD []

/-- An operation that starts with its keyword. -/
def operation (kind : OperationKind) : Grammar Definition := do
  advance
  let name ← optionally isName name
  let variableDefinitions ← variableDefinitions
  let directives ← directives false nestingLimit
  let selections ← selectionSet nestingLimit
  return .operation (some ⟨kind, name, variableDefinitions, directives⟩) selections

def bareOperation : Grammar Definition := do
  return .operation none (← selectionSet nestingLimit)

def fragmentName : Grammar String := do
  if ← seesName "on" then unexpected else name

def fragment : Grammar Definition := do
  advance
  let name ← fragmentName
  expectName "on"
  let typeCondition ← Grammar.name
  let directives ← directives false nestingLimit
  let selections ← selectionSet nestingLimit
  return .fragment ⟨name, typeCondition, directives⟩ selections

end QueryCost.GraphQL.Grammar
