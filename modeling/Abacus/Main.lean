import Abacus.CommandLine.Response

/-!
# The program

Reads the file and the log level that an invocation needs and prints the response.
-/

open Abacus CommandLine

/-- The text of a file; none if it cannot be read as text. -/
def readText (path : String) : IO (Option String) := do
  try
    return some (← IO.FS.readFile path)
  catch _ =>
    return none

/-- Answers the arguments of the program. -/
def main (arguments : List String) : IO UInt32 := do
  let asked := (← IO.getEnv "RUST_LOG").bind LogLevel.ofString?
  let invocation := Invocation.ofArguments arguments
  let content ← match invocation.path? with
    | some path => readText path
    | none => pure none
  let response := respond asked (fun _ => content) invocation
  for message in response.stderr do
    IO.eprintln message
  IO.print response.stdout
  return response.code.toUInt32
