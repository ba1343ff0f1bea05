/-
# QueryCost.GraphQL.Grammar.Value -- values, arguments, directives, types

Each element of a list, each value in an object and each list type is a level of
nesting.  In a constant place no variable may stand, at any level.
-/
import QueryCost.GraphQL.Document
import QueryCost.GraphQL.Grammar

namespace QueryCost.GraphQL.Grammar

set_option autoImplicit false

/-- A name with a value after a colon; the value may be missing. -/
def argumentWith (value : Grammar Value) : Grammar Argument := do
  let name ← name
  if ← sees .colon then do
    advance
    return .given name (← value)
  else return .bare name

/-- A value whose inner values are read by `inner`. -/
def valueWith (constant : Bool) (inner : Grammar Value) : Grammar Value := do
  match ← next? with
  | some (.punctuator .dollar) =>
      if constant then unexpected
      else do
        advance
        return .variable (← name)
  | some (.number text) => do
      advance
      return .number text
  | some (.string text) => do
      advance
      return .string text
  | some (.name text) => do
      advance
      return .name text
  | some (.punctuator .bracketLeft) => do
      advance
      let items ← many (fun t => !isPunctuator .bracketRight t) inner
      expect .bracketRight
      return .list items
  | some (.punctuator .braceLeft) => do
      advance
      let members ← many isName (argumentWith inner)
      expect .braceRight
      return .object members
  | _ => unexpected

/-- A value with so many levels left below it. -/
def value (constant : Bool) : (room : Nat) → Grammar Value
  | 0 => valueWith constant (faultHere .tooDeep)
  | room + 1 => valueWith constant (value constant room)

def argumentList (constant : Bool) (room : Nat) : Grammar (List Argument) :=
  enclosed .parenLeft isName (argumentWith (value constant room)) .parenRight

/-- Arguments in parentheses, or none. -/
def arguments (constant : Bool) (room : Nat) : Grammar (List Argument) := do
  return (← optionally (isPunctuator .parenLeft) (argumentList constant room)).getD []

def directive (constant : Bool) (room : Nat) : Grammar Directive := do
  expect .at
  let name ← name
  let arguments ← arguments constant room
  return ⟨name, arguments⟩

def directives (constant : Bool) (room : Nat) : Grammar (List Directive) :=
  many (isPunctuator .at) (directive constant room)

/-- A type whose item type, if it is a list, is read by `inner`. -/
def typeWith (inner : Grammar TypeReference) : Grammar TypeReference := do
  let type ←
    if ← sees .bracketLeft then do
      advance
      let item ← inner
      expect .bracketRight
      pure (TypeReference.list item)
    else TypeReference.named <$> name
  if ← sees .bang then do
    advance
    return .nonNull type
  else return type

/-- A type with so many levels left below it. -/
def typeReference : (room : Nat) → Grammar TypeReference
  | 0 => typeWith (faultHere .tooDeep)
  | room + 1 => typeWith (typeReference room)

/-- An equals sign and a constant value, or nothing. -/
def defaultValue (room : Nat) : Grammar (Option Value) :=
  optionally (isPunctuator .equals) do
    advance
    value true room

end QueryCost.GraphQL.Grammar
