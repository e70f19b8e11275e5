import Demangle.CommandLine

/-!
# The program

Reads the arguments, the fixture file and the standard input, and prints what the command line asks
for.
-/

open Demangle.CommandLine

/-- The contents of a file, if it can be read. -/
def readFile? (path : String) : IO (Option String) := do
  try
    return some (← IO.FS.readFile path)
  catch _ =>
    return none

/-- The whole standard input. -/
def readInput : IO String := do
  (← IO.getStdin).readToEnd

/-- Runs the program. -/
def main (args : List String) : IO UInt32 := do
  let outcome ←
    match parse args with
    | .proceed settings =>
      match settings.fixtures with
      | some path => pure (settings.run (← readFile? path) "")
      | none => do
        let input ← if settings.symbols.isEmpty then readInput else pure ""
        pure (settings.run none input)
    | invocation => pure (invocation.run none "")
  IO.print outcome.output
  return UInt32.ofNat outcome.exitCode
