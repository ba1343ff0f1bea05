/-
# QueryCost.CommandLine.Arguments -- reading the command line

Options have long names and some have a letter.  A value stands behind an equals
sign, in the next argument, or right behind the letter; the next argument is no
value if it starts with a dash and goes on.  No option may be given twice, nothing
but options may be given, and two dashes end them.

Asking for help or for the version ends the reading, so what follows is not
looked at; what stands in front must be right.
-/
import QueryCost.Decimal.Numeral
import QueryCost.Text.Digits

namespace QueryCost.CommandLine

set_option autoImplicit false

/-- What the program is asked to do. -/
structure Options where
  config : String
  query : Option String
  file : Option String
  /-- Whether the input is a request body. -/
  request : Bool
  costCeiling : Option Float
  depthCeiling : Option Nat

inductive Invocation
  | analyze (o : Options)
  | help
  | version
  /-- Arguments that cannot be understood. -/
  | misused

/-- Options that take a value. -/
inductive Setting
  | config | query | file | maxCost | maxDepth | logLevel
  deriving DecidableEq

/-- Options that take none. -/
inductive Switch
  | request | help | version
  deriving DecidableEq

inductive OptionName
  | setting (s : Setting)
  | switch (s : Switch)

def OptionName.ofLong? : String → Option OptionName
  | "config" => some (.setting .config)
  | "query" => some (.setting .query)
  | "file" => some (.setting .file)
  | "max-cost" => some (.setting .maxCost)
  | "max-depth" => some (.setting .maxDepth)
  | "log-level" => some (.setting .logLevel)
  | "request" => some (.switch .request)
  | "help" => some (.switch .help)
  | "version" => some (.switch .version)
  | _ => none

def OptionName.ofLetter? : Char → Option OptionName
  | 'c' => some (.setting .config)
  | 'q' => some (.setting .query)
  | 'f' => some (.setting .file)
  | 'l' => some (.setting .logLevel)
  | 'h' => some (.switch .help)
  | 'V' => some (.switch .version)
  | _ => none

/-- The options that were given so far. -/
structure Given where
  config : Option String
  query : Option String
  file : Option String
  request : Bool
  costCeiling : Option Float
  depthCeiling : Option Nat
  logLevel : Option String

namespace Given

def nothing : Given :=
  ⟨none, none, none, false, none, none, none⟩

/-- A size in decimal digits, with or without a plus sign. -/
def sizeOfText? (text : String) : Option Nat := do
  let digits := match text.toList with
    | '+' :: rest => rest
    | cs => cs
  let n ← if digits.all Char.isDigit then Text.ofDigits? 10 digits else none
  if digits.isEmpty || UInt64.size ≤ n then none else some n

/-- A path is not empty. -/
def path? (text : String) : Option String :=
  if text = "" then none else some text

/-- Set what is not set yet. -/
def once {α : Type} (old : Option α) (new : Option α) : Option (Option α) :=
  match old, new with
  | none, some a => some (some a)
  | _, _ => none

def set (g : Given) (s : Setting) (value : String) : Option Given :=
  match s with
  | .config => (once g.config (path? value)).map fun config => { g with config }
  | .query => (once g.query (some value)).map fun query => { g with query }
  | .file => (once g.file (path? value)).map fun file => { g with file }
  | .maxCost =>
      (once g.costCeiling (Decimal.ofText? value)).map fun costCeiling => { g with costCeiling }
  | .maxDepth =>
      (once g.depthCeiling (sizeOfText? value)).map fun depthCeiling => { g with depthCeiling }
  | .logLevel => (once g.logLevel (some value)).map fun logLevel => { g with logLevel }

/-- The query and a file to read it from exclude each other. -/
def invocation (g : Given) : Invocation :=
  if g.query.isSome && g.file.isSome then .misused
  else
    .analyze
      { config := g.config.getD "config.yaml"
        query := g.query
        file := g.file
        request := g.request
        costCeiling := g.costCeiling
        depthCeiling := g.depthCeiling }

end Given

/-- What one argument says. -/
inductive Argument
  | endOfOptions
  /-- An option; a setting may have its value in the same argument. -/
  | option (name : OptionName) (attached : Option String)
  | other

/-- The text in front of the first equals sign, and the text behind it. -/
def splitValue (cs : List Char) : String × Option String :=
  match cs.dropWhile (· != '=') with
  | _ :: value => (String.ofList (cs.takeWhile (· != '=')), some (String.ofList value))
  | [] => (String.ofList cs, none)

/-- What stands behind a letter: a value, perhaps behind an equals sign, or nothing. -/
def attachedValue : List Char → Option String
  | [] => none
  | '=' :: value => some (String.ofList value)
  | value => some (String.ofList value)

def Argument.ofText (text : String) : Argument :=
  match text.toList with
  | ['-', '-'] => .endOfOptions
  | '-' :: '-' :: rest =>
      let (name, value) := splitValue rest
      match OptionName.ofLong? name with
      | some name => .option name value
      | none => .other
  | '-' :: letter :: rest =>
      match OptionName.ofLetter? letter with
      | some (.switch s) => .option (.switch s) none
      | some name => .option name (attachedValue rest)
      | none => .other
  | _ => .other

/-- Whether an argument may be the value of the option in front of it. -/
def isValue (text : String) : Bool :=
  match text.toList with
  | '-' :: _ :: _ => false
  | _ => true

def readFrom (g : Given) : List String → Invocation
  | [] => g.invocation
  | text :: rest =>
      match Argument.ofText text with
      | .other => .misused
      | .endOfOptions => if rest.isEmpty then g.invocation else .misused
      | .option (.switch _) (some _) => .misused
      | .option (.switch .help) none => .help
      | .option (.switch .version) none => .version
      | .option (.switch .request) none =>
          if g.request then .misused else readFrom { g with request := true } rest
      | .option (.setting s) (some value) =>
          match g.set s value with
          | some g => readFrom g rest
          | none => .misused
      | .option (.setting s) none =>
          match rest with
          | [] => .misused
          | value :: rest =>
              if isValue value then
                match g.set s value with
                | some g => readFrom g rest
                | none => .misused
              else .misused

/-- What the arguments ask for. -/
def Invocation.ofArguments (arguments : List String) : Invocation :=
  readFrom .nothing arguments

end QueryCost.CommandLine
