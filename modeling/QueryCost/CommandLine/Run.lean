/-
# QueryCost.CommandLine.Run -- one run of the program

A run is a function of the arguments, of the files and of standard input.  The
configuration comes first: its file if there is one, the defaults otherwise, then
the ceilings that were given, and the result is checked again.  Then the input is
read, from the one place that the options select.

A query is answered with its report, a request body with the reports of all its
queries, and either with an error response if there is a violation.  A refused
query always blocks; a request body is blocked as the settings say.
-/
import QueryCost.CommandLine.Arguments
import QueryCost.Config.Load
import QueryCost.Verdict

namespace QueryCost.CommandLine

set_option autoImplicit false

inductive FileState
  | absent
  /-- Something that cannot be read as text. -/
  | unreadable
  | text (content : String)
  deriving DecidableEq

/-- What a run can look at. -/
structure Environment where
  file : String → FileState
  /-- Standard input, if it is text. -/
  input : Option String

/-- A path that ends with a slash, or with a point behind one, is that of a directory. -/
def namesDirectory (path : String) : Bool :=
  (Config.betweenSlashes path).getLast?.any fun part => part = "" || part = "."

/-- Files by their paths, seen from the directory that the run starts in; there are no others.
That directory and those around it cannot be read as text. -/
def Environment.ofFiles (files : List (String × String)) (input : String) : Environment where
  file path :=
    let parts := Config.pathParts path
    let found := files.filter fun f => parts.isPrefixOf (Config.pathParts f.1)
    if parts.all (· = "..") then .unreadable
    else if path.startsWith "/" then .absent
    else
      match found.find? (fun f => Config.pathParts f.1 = parts), found with
      | some (_, content), _ => if namesDirectory path then .absent else .text content
      | none, _ :: _ => .unreadable
      | none, [] => .absent
  input := some input

/-- Why a run ends without an answer. -/
inductive Failure
  | configFile
  | invalidConfig
  | inputFile (path : String)
  | standardInput
  deriving DecidableEq

def Failure.message : Failure → String
  | .configFile => "Failed to load config file"
  | .invalidConfig => "Invalid configuration"
  | .inputFile path => "Failed to read " ++ path
  | .standardInput => "Failed to read query from stdin"

inductive Outcome
  /-- A value to print, and whether the input is blocked. -/
  | answered (value : Json) (blocked : Bool)
  | failed (f : Failure)
  /-- A text that was asked for. -/
  | told (text : String)
  | misused

namespace Outcome

def exitCode : Outcome → Nat
  | .answered _ blocked => if blocked then 1 else 0
  | .failed _ => 1
  | .told _ => 0
  | .misused => 2

def output : Outcome → String
  | .answered value _ => value.pretty ++ "\n"
  | .told text => text ++ "\n"
  | _ => ""

def context? : Outcome → Option String
  | .failed f => some f.message
  | _ => none

end Outcome

/-! ## Configuration and input -/

/-- The configuration of a file; without the file the defaults. -/
def configOfFile (e : Environment) (path : String) : Except Failure Config :=
  match e.file path with
  | .absent => .ok .default
  | .unreadable => .error .configFile
  | .text content =>
      match Config.ofFileText path content with
      | .ok c => .ok c
      | .error _ => .error .configFile

/-- Put the given ceilings in place of those of a configuration. -/
def overridden (o : Options) (c : Config) : Config :=
  { c with rules := { c.rules with ceilings :=
      ⟨o.costCeiling.or c.rules.ceilings.cost, o.depthCeiling.or c.rules.ceilings.depth⟩ } }

def loadConfig (e : Environment) (o : Options) : Except Failure Config := do
  let c := overridden o (← configOfFile e o.config)
  if c.problem?.isSome then .error .invalidConfig else .ok c

/-- The query if it was given, else the file if one was named, else standard input. -/
def readInput (e : Environment) (o : Options) : Except Failure String :=
  match o.query, o.file with
  | some query, _ => .ok query
  | none, some path =>
      match e.file path with
      | .text content => .ok content
      | _ => .error (.inputFile path)
  | none, none =>
      match e.input with
      | some text => .ok text
      | none => .error .standardInput

/-! ## Answers -/

def answerQuery (c : Config) (query : String) : Json × Bool :=
  match c.analyze query with
  | .ok report => (report.toJson, false)
  | .error refusal => (Violation.errorResponse [refusal.toViolation], true)

def answerRequest (c : Config) (body : ByteArray) : Json × Bool :=
  let verdict := c.judge body
  (verdict.errorResponse?.getD (.array (verdict.reports.map (·.toJson))), verdict.blocked)

def answer (c : Config) (request : Bool) (input : String) : Json × Bool :=
  if request then answerRequest c input.toUTF8 else answerQuery c input

def analyze (e : Environment) (o : Options) : Outcome :=
  match loadConfig e o with
  | .error f => .failed f
  | .ok c =>
      match readInput e o with
      | .error f => .failed f
      | .ok input =>
          let (value, blocked) := answer c o.request input
          .answered value blocked

def versionText : String :=
  "graphql-cost-analysis 0.1.0"

def helpText : String :=
  "Usage: graphql-cost [--config FILE] [--query TEXT | --file FILE] [--request] [--max-cost N]"
    ++ " [--max-depth N] [--log-level LEVEL]"

/-- Do what the arguments ask for. -/
def run (e : Environment) (arguments : List String) : Outcome :=
  match Invocation.ofArguments arguments with
  | .analyze o => analyze e o
  | .help => .told helpText
  | .version => .told versionText
  | .misused => .misused

end QueryCost.CommandLine
