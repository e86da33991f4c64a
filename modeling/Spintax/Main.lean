import Spintax.CommandLine.Program

/-!
# Entry point

The outer layer of the program: it reads the files that a command may need and a seed, and writes
what the command leaves behind.
-/

namespace Spintax.CommandLine

/-- The content of a file, if it is one and holds text. -/
def readText (path : String) : IO (Option String) := do
  try
    return some (← IO.FS.readFile path)
  catch _ =>
    return none

/-- The contents of the files that a command may read. -/
def readFiles (paths : List String) : IO (List (String × Option String)) :=
  paths.mapM fun path => return (path, ← readText path)

/-- A seed from the system. -/
def readEntropy : IO UInt64 := do
  let bytes ← IO.getRandomBytes 8
  return bytes.foldl (fun seed byte => seed * 256 + byte.toUInt64) 0

/-- Carry out a command line. -/
def carryOut (arguments : List String) : IO Outcome := do
  match parse arguments with
  | .error stop => return stop.outcome
  | .ok invocation =>
    let contents ← readFiles invocation.paths
    return invocation.outcome (fun path => (contents.lookup path).join) (← readEntropy)

end Spintax.CommandLine

/-- Run the program. -/
def main (arguments : List String) : IO UInt32 := do
  let outcome ← Spintax.CommandLine.carryOut arguments
  IO.print outcome.output
  if let some message := outcome.message then
    IO.eprintln message
  return UInt32.ofNat outcome.exit
