/-
# QueryCost.Proofs.GraphQL.Writing -- the tokens of documents

For each part of a document the tokens that it is written with, in their order, which
parts the grammar of executable documents has, and how deeply a part nests: each
selection set, each element of a list, each value in an object and each list type is a
level.

The grammar asks little that the trees do not have by themselves: an argument has a
value, a selection set is not empty, no fragment is called `on`, a type is not marked as
non-null twice, and no variable stands in a constant place.
-/
import QueryCost.GraphQL.Document
import QueryCost.GraphQL.Token

namespace QueryCost.GraphQL

set_option autoImplicit false

/-! ## Values and arguments -/

mutual

def Value.tokens : Value → List Token
  | .variable name => [.punctuator .dollar, .name name]
  | .number text => [.number text]
  | .string text => [.string text]
  | .name text => [.name text]
  | .list items =>
      .punctuator .bracketLeft :: (itemsTokens items ++ [.punctuator .bracketRight])
  | .object members =>
      .punctuator .braceLeft :: (membersTokens members ++ [.punctuator .braceRight])

def itemsTokens : List Value → List Token
  | [] => []
  | item :: items => item.tokens ++ itemsTokens items

def Argument.tokens : Argument → List Token
  | .bare name => [.name name]
  | .given name value => .name name :: .punctuator .colon :: value.tokens

def membersTokens : List Argument → List Token
  | [] => []
  | member :: members => member.tokens ++ membersTokens members

end

mutual

/-- The levels that a value opens below itself. -/
def Value.levels : Value → Nat
  | .list items => itemsLevels items
  | .object members => membersLevels members
  | .variable _ | .number _ | .string _ | .name _ => 0

def itemsLevels : List Value → Nat
  | [] => 0
  | item :: items => max (item.levels + 1) (itemsLevels items)

def Argument.levels : Argument → Nat
  | .bare _ => 0
  | .given _ value => value.levels

def membersLevels : List Argument → Nat
  | [] => 0
  | member :: members => max (member.levels + 1) (membersLevels members)

end

mutual

inductive Value.InGrammar (constant : Bool) : Value → Prop
  | free (name : String) (notConstant : constant = false) :
      Value.InGrammar constant (.variable name)
  | number (text : String) : Value.InGrammar constant (.number text)
  | string (text : String) : Value.InGrammar constant (.string text)
  | name (text : String) : Value.InGrammar constant (.name text)
  | list {items : List Value} (each : ∀ v ∈ items, Value.InGrammar constant v) :
      Value.InGrammar constant (.list items)
  | object {members : List Argument} (each : ∀ m ∈ members, Argument.InGrammar constant m) :
      Value.InGrammar constant (.object members)

inductive Argument.InGrammar (constant : Bool) : Argument → Prop
  | given (name : String) {value : Value} (inGrammar : Value.InGrammar constant value) :
      Argument.InGrammar constant (.given name value)

end

theorem itemsTokens_eq (items : List Value) : itemsTokens items = items.flatMap Value.tokens := by
  induction items with
  | nil => rfl
  | cons item items ih => rw [itemsTokens, ih, List.flatMap_cons]

theorem membersTokens_eq (members : List Argument) :
    membersTokens members = members.flatMap Argument.tokens := by
  induction members with
  | nil => rfl
  | cons member members ih => rw [membersTokens, ih, List.flatMap_cons]

theorem levels_lt_of_mem_items {item : Value} {items : List Value} (among : item ∈ items) :
    item.levels < itemsLevels items := by
  induction items with
  | nil => cases among
  | cons first items ih =>
      rw [itemsLevels]
      rcases List.mem_cons.1 among with rfl | among
      · omega
      · have := ih among
        omega

theorem levels_lt_of_mem_members {member : Argument} {members : List Argument}
    (among : member ∈ members) : member.levels < membersLevels members := by
  induction members with
  | nil => cases among
  | cons first members ih =>
      rw [membersLevels]
      rcases List.mem_cons.1 among with rfl | among
      · omega
      · have := ih among
        omega

/-- The largest of the levels of some parts. -/
def most {α : Type} (levels : α → Nat) (parts : List α) : Nat :=
  parts.foldr (fun part n => max (levels part) n) 0

theorem le_most {α : Type} {levels : α → Nat} {part : α} {parts : List α}
    (among : part ∈ parts) : levels part ≤ most levels parts := by
  induction parts with
  | nil => cases among
  | cons first parts ih =>
      have step : most levels (first :: parts) = max (levels first) (most levels parts) := rfl
      rw [step]
      rcases List.mem_cons.1 among with rfl | among
      · omega
      · have := ih among
        omega

/-- Parts in punctuators, or nothing if there are none. -/
def inside {α : Type} (left : Punctuator) (write : α → List Token) (right : Punctuator) :
    List α → List Token
  | [] => []
  | parts => .punctuator left :: (parts.flatMap write ++ [.punctuator right])

def argumentsTokens (arguments : List Argument) : List Token :=
  inside .parenLeft Argument.tokens .parenRight arguments

/-! ## Directives and types -/

def Directive.tokens (d : Directive) : List Token :=
  .punctuator .at :: .name d.name :: argumentsTokens d.arguments

def Directive.levels (d : Directive) : Nat :=
  most Argument.levels d.arguments

def Directive.InGrammar (constant : Bool) (d : Directive) : Prop :=
  ∀ a ∈ d.arguments, a.InGrammar constant

def directivesTokens (ds : List Directive) : List Token :=
  ds.flatMap Directive.tokens

namespace TypeReference

def tokens : TypeReference → List Token
  | .named name => [.name name]
  | .list item => .punctuator .bracketLeft :: (item.tokens ++ [.punctuator .bracketRight])
  | .nonNull type => type.tokens ++ [.punctuator .bang]

def levels : TypeReference → Nat
  | .named _ => 0
  | .list item => item.levels + 1
  | .nonNull type => type.levels

inductive InGrammar : TypeReference → Prop
  | named (name : String) : InGrammar (.named name)
  | list {item : TypeReference} (inGrammar : item.InGrammar) : InGrammar (.list item)
  | nonNullNamed (name : String) : InGrammar (.nonNull (.named name))
  | nonNullList {item : TypeReference} (inGrammar : item.InGrammar) :
      InGrammar (.nonNull (.list item))

end TypeReference

namespace VariableDefinition

def defaultTokens : Option Value → List Token
  | none => []
  | some value => .punctuator .equals :: value.tokens

def tokens (v : VariableDefinition) : List Token :=
  .punctuator .dollar :: .name v.name :: .punctuator .colon ::
    (v.type.tokens ++ (defaultTokens v.default ++ directivesTokens v.directives))

def levels (v : VariableDefinition) : Nat :=
  max v.type.levels (max (most Value.levels v.default.toList) (most Directive.levels v.directives))

structure InGrammar (v : VariableDefinition) : Prop where
  type : v.type.InGrammar
  default : ∀ value, v.default = some value → value.InGrammar true
  directives : ∀ d ∈ v.directives, d.InGrammar true

end VariableDefinition

/-! ## Selections -/

namespace Field

def aliasTokens : Option String → List Token
  | none => []
  | some aliasName => [.name aliasName, .punctuator .colon]

def tokens (f : Field) : List Token :=
  aliasTokens f.aliasName ++
    .name f.name :: (argumentsTokens f.arguments ++ directivesTokens f.directives)

def levels (f : Field) : Nat :=
  max (most Argument.levels f.arguments) (most Directive.levels f.directives)

structure InGrammar (f : Field) : Prop where
  arguments : ∀ a ∈ f.arguments, a.InGrammar false
  directives : ∀ d ∈ f.directives, d.InGrammar false

end Field

def typeConditionTokens : Option String → List Token
  | none => []
  | some type => [.name "on", .name type]

mutual

def Selection.tokens : Selection → List Token
  | .leaf field => field.tokens
  | .branch field selections => field.tokens ++ (.punctuator .braceLeft ::
      (selectionsTokens selections ++ [.punctuator .braceRight]))
  | .inlineFragment typeCondition directives selections =>
      .punctuator .spread :: (typeConditionTokens typeCondition ++
        (directivesTokens directives ++ (.punctuator .braceLeft ::
          (selectionsTokens selections ++ [.punctuator .braceRight]))))
  | .fragmentSpread name directives =>
      .punctuator .spread :: .name name :: directivesTokens directives

def selectionsTokens : List Selection → List Token
  | [] => []
  | selection :: selections => selection.tokens ++ selectionsTokens selections

end

mutual

def Selection.levels : Selection → Nat
  | .leaf field => field.levels
  | .branch field selections => max field.levels (selectionsLevels selections + 1)
  | .inlineFragment _ directives selections =>
      max (most Directive.levels directives) (selectionsLevels selections + 1)
  | .fragmentSpread _ directives => most Directive.levels directives

def selectionsLevels : List Selection → Nat
  | [] => 0
  | selection :: selections => max selection.levels (selectionsLevels selections)

end

inductive Selection.InGrammar : Selection → Prop
  | leaf {field : Field} (inGrammar : field.InGrammar) : InGrammar (.leaf field)
  | branch {field : Field} {selections : List Selection} (inGrammar : field.InGrammar)
      (nonempty : selections ≠ []) (each : ∀ s ∈ selections, s.InGrammar) :
      InGrammar (.branch field selections)
  | inlineFragment (typeCondition : Option String) {directives : List Directive}
      {selections : List Selection} (inGrammar : ∀ d ∈ directives, d.InGrammar false)
      (nonempty : selections ≠ []) (each : ∀ s ∈ selections, s.InGrammar) :
      InGrammar (.inlineFragment typeCondition directives selections)
  | fragmentSpread {name : String} {directives : List Directive} (notOn : name ≠ "on")
      (inGrammar : ∀ d ∈ directives, d.InGrammar false) :
      InGrammar (.fragmentSpread name directives)

theorem selectionsTokens_eq (selections : List Selection) :
    selectionsTokens selections = selections.flatMap Selection.tokens := by
  induction selections with
  | nil => rfl
  | cons selection selections ih => rw [selectionsTokens, ih, List.flatMap_cons]

theorem levels_le_of_mem_selections {selection : Selection} {selections : List Selection}
    (among : selection ∈ selections) : selection.levels ≤ selectionsLevels selections := by
  induction selections with
  | nil => cases among
  | cons first selections ih =>
      rw [selectionsLevels]
      rcases List.mem_cons.1 among with rfl | among
      · omega
      · have := ih among
        omega

/-- Selections in braces. -/
def selectionSetTokens (selections : List Selection) : List Token :=
  .punctuator .braceLeft :: (selections.flatMap Selection.tokens ++ [.punctuator .braceRight])

/-! ## Definitions -/

namespace OperationHead

def tokens (h : OperationHead) : List Token :=
  .name h.kind.keyword :: (h.name.toList.map Token.name ++
    (inside .parenLeft VariableDefinition.tokens .parenRight h.variableDefinitions ++
      directivesTokens h.directives))

def levels (h : OperationHead) : Nat :=
  max (most VariableDefinition.levels h.variableDefinitions) (most Directive.levels h.directives)

structure InGrammar (h : OperationHead) : Prop where
  variableDefinitions : ∀ v ∈ h.variableDefinitions, v.InGrammar
  directives : ∀ d ∈ h.directives, d.InGrammar false

end OperationHead

namespace FragmentHead

def tokens (h : FragmentHead) : List Token :=
  .name "fragment" :: .name h.name :: .name "on" :: .name h.typeCondition ::
    directivesTokens h.directives

structure InGrammar (h : FragmentHead) : Prop where
  notOn : h.name ≠ "on"
  directives : ∀ d ∈ h.directives, d.InGrammar false

end FragmentHead

namespace Definition

/-- The tokens of an operation or a fragment; type definitions are not kept, so they have none. -/
def tokens : Definition → List Token
  | .operation none selections => selectionSetTokens selections
  | .operation (some head) selections => head.tokens ++ selectionSetTokens selections
  | .fragment head selections => head.tokens ++ selectionSetTokens selections
  | .typeSystem => []

def levels : Definition → Nat
  | .operation none selections => selectionsLevels selections + 1
  | .operation (some head) selections => max head.levels (selectionsLevels selections + 1)
  | .fragment head selections =>
      max (most Directive.levels head.directives) (selectionsLevels selections + 1)
  | .typeSystem => 0

inductive InGrammar : Definition → Prop
  | bare {selections : List Selection} (nonempty : selections ≠ [])
      (each : ∀ s ∈ selections, s.InGrammar) : InGrammar (.operation none selections)
  | operation {head : OperationHead} {selections : List Selection} (inGrammar : head.InGrammar)
      (nonempty : selections ≠ []) (each : ∀ s ∈ selections, s.InGrammar) :
      InGrammar (.operation (some head) selections)
  | fragment {head : FragmentHead} {selections : List Selection} (inGrammar : head.InGrammar)
      (nonempty : selections ≠ []) (each : ∀ s ∈ selections, s.InGrammar) :
      InGrammar (.fragment head selections)

end Definition

namespace Document

def tokens (d : Document) : List Token :=
  d.definitions.flatMap Definition.tokens

def levels (d : Document) : Nat :=
  most Definition.levels d.definitions

structure InGrammar (d : Document) : Prop where
  nonempty : d.definitions ≠ []
  each : ∀ definition ∈ d.definitions, definition.InGrammar

end Document

end QueryCost.GraphQL
