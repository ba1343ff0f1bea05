/-
# QueryCost.Config.Load -- configurations from text and from files

A text is read in its format and then checked.  The format of a file shows in its
name: `json` behind the last point, in capitals or not, is JSON, everything else
is YAML.
-/
import QueryCost.Config.Json
import QueryCost.Config.Yaml

namespace QueryCost.Config

set_option autoImplicit false

/-- Why there is no configuration. -/
inductive LoadFault
  | invalid (p : Problem)
  | notJson
  | notYaml
  /-- The file cannot be read, or its bytes are no text. -/
  | unreadable

/-- A configuration that was read must be valid. -/
def checked (fault : LoadFault) : Option Config → Except LoadFault Config
  | none => .error fault
  | some c =>
      match c.problem? with
      | some p => .error (.invalid p)
      | none => .ok c

def ofJson (text : String) : Except LoadFault Config :=
  checked .notJson (ofJsonText? text)

def ofYaml (text : String) : Except LoadFault Config :=
  checked .notYaml (ofYamlText? text)

/-! ## File names -/

/-- What stands between the slashes of a path. -/
def betweenSlashes (path : String) : List String :=
  (path.toList.splitOn '/').map String.ofList

/-- The parts of a path between slashes, without those that mean the place they stand at. -/
def pathParts (path : String) : List String :=
  (betweenSlashes path).filter fun part => part != "" && part != "."

/-- What stands behind the last point of a file name; a point in front of all is none. -/
def extension? (path : String) : Option String :=
  match (pathParts path).getLast? with
  | none => none
  | some name =>
      let reversed := name.toList.reverse
      let ending := reversed.takeWhile (· != '.')
      match reversed.drop (ending.length + 1) with
      | [] => none
      | _ => if name = ".." then none else some (String.ofList ending.reverse)

def isJsonPath (path : String) : Bool :=
  (extension? path).any fun e => e.toLower = "json"

/-- The configuration in a file of this name with this text. -/
def ofFileText (path text : String) : Except LoadFault Config :=
  if isJsonPath path then ofJson text else ofYaml text

end QueryCost.Config
