/-
# QueryCost.Config.Yaml -- configurations in YAML

A record is a mapping all of whose keys are scalars, taken as text; where nothing
is written for a record it has no fields, but an explicit null is no record.
Numbers are plain scalars, or literal ones with the tag of their kind.  A choice is
a scalar, or a tag of its own on a null.
-/
import QueryCost.Config.Format
import QueryCost.Yaml.Node
import QueryCost.Yaml.Number

namespace QueryCost.Config

open QueryCost.Yaml

set_option autoImplicit false

def nullTag : Tag := .text "tag:yaml.org,2002:null"

def sizeTag : Tag := .text "tag:yaml.org,2002:int"

def amountTag : Tag := .text "tag:yaml.org,2002:float"

def isNullWord (text : String) : Bool :=
  text ∈ ["null", "Null", "NULL", "~"]

/-- The text of a scalar that may be a number of the kind of a tag. -/
def numberText? (tag : Tag) : Node → Option String
  | .scalar s =>
      if s.style = .plain || (s.style = .literal && s.tag = some tag) then some s.text else none
  | _ => none

def keyText? : Node → Option String
  | .scalar s => some s.text
  | _ => none

/-- The entries of a mapping under the texts of their keys; nothing written is no entries. -/
def yamlMembers? (d : Yaml.Document) (node : Node) : Option (List (String × Node)) :=
  match d.resolve node with
  | .mapping _ entries => entries.mapM fun e => (keyText? (d.resolve e.1)).map (·, e.2)
  | .scalar s => if s.style = .plain && s.text = "" then some [] else none
  | _ => none

def yamlAmount? (d : Yaml.Document) (node : Node) : Option Float :=
  (numberText? amountTag (d.resolve node)).bind amountOfText?

def yamlLedger? (d : Yaml.Document) (node : Node) : Option (Ledger Float) := do
  let members ← yamlMembers? d node
  let amounts ← members.mapM fun m => (yamlAmount? d m.2).map (m.1, ·)
  return Ledger.ofList amounts

/-- A tag of its own is not one of the tags of YAML: it starts with a mark and has a name. -/
def ownTag? : Option Tag → Option String
  | some (.text tag) =>
      match tag.toList with
      | '!' :: c :: name => some (String.ofList (c :: name))
      | _ => none
  | _ => none

def yamlChoice? (d : Yaml.Document) (node : Node) : Option String :=
  match d.resolve node with
  | .scalar s =>
      match ownTag? s.tag with
      | some name =>
          if s.style = .plain && (s.text = "" || isNullWord s.text) then some name else none
      | none => some s.text
  | _ => none

/-- A plain scalar that is empty or says null stands for no value, unless it has another tag; with
the tag of null it must say so. -/
def yamlIsAbsent? (d : Yaml.Document) (node : Node) : Option Bool :=
  match d.resolve node with
  | .scalar s =>
      if s.style != .plain then some false
      else
        match s.tag with
        | some tag =>
            if tag = nullTag then if isNullWord s.text then some true else none else some false
        | none => some (s.text = "" || isNullWord s.text)
  | _ => some false

def yamlFormat (d : Yaml.Document) : Format Node where
  record? fields node := (yamlMembers? d node).bind (Record.ofMembers? fields)
  amount? := yamlAmount? d
  size? node := (numberText? sizeTag (d.resolve node)).bind sizeOfText?
  ledger? := yamlLedger? d
  choice? := yamlChoice? d
  isAbsent? := yamlIsAbsent? d

/-- The configuration that a YAML text is, valid or not. -/
def ofYamlText? (text : String) : Option Config :=
  (Yaml.Document.ofText? text.toList).bind fun d => (yamlFormat d).config? d.root

end QueryCost.Config
