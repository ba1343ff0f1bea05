/-
# QueryCost.Main -- the program

Reads the files that the arguments name, and standard input if nothing else is
named, runs once, prints and exits.
-/
import QueryCost.CommandLine.Run

namespace QueryCost

open QueryCost.CommandLine

set_option autoImplicit false

/-- A path that leads nowhere names no file, whatever stands in its way: a name that is not
there, a file in place of a directory, a directory that may not be searched. -/
def resolves (path : String) : IO Bool := do
  try
    discard (IO.FS.realPath path)
    return true
  catch _ => return false

/-- A file that is there and cannot be read is not taken for one that is not there. -/
def readFile (path : String) : IO FileState := do
  unless ← resolves path do return .absent
  try
    match String.fromUTF8? (← IO.FS.readBinFile path) with
    | some content => return .text content
    | none => return .unreadable
  catch _ => return .unreadable

partial def readAll (stream : IO.FS.Stream) (done : ByteArray) : IO ByteArray := do
  let chunk ← stream.read 65536
  if chunk.isEmpty then return done else readAll stream (done ++ chunk)

/-- Standard input, if it can be read and is text. -/
def readStandardInput : IO (Option String) := do
  try return String.fromUTF8? (← readAll (← IO.getStdin) .empty)
  catch _ => return none

/-- Look at what the options select and at nothing else. -/
def lookAround (o : Options) : IO Environment := do
  let config ← readFile o.config
  let file ← match o.file with
    | some path => readFile path
    | none => pure .absent
  let input ← if o.query.isNone && o.file.isNone then readStandardInput else pure (some "")
  return {
    file := fun path => if path = o.config then config else file
    input := input }

def runProgram (arguments : List String) : IO UInt32 := do
  let environment ← match Invocation.ofArguments arguments with
    | .analyze o => lookAround o
    | _ => pure { file := fun _ => .absent, input := some "" }
  let outcome := run environment arguments
  IO.print outcome.output
  if let some context := outcome.context? then IO.eprintln ("Error: " ++ context)
  if let .misused := outcome then IO.eprintln helpText
  return UInt32.ofNat outcome.exitCode

end QueryCost

def main (arguments : List String) : IO UInt32 :=
  QueryCost.runProgram arguments
