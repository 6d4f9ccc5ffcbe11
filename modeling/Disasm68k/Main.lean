import Disasm68k.Program

/-!
# Running the program

This module talks to the operating system and decides nothing: it collects the
arguments, the environment and the image, and shows the outcome of the run.

Reference: specification §6.4, the command line (`main`).
-/

namespace Disasm68k

/-- The environment variables that the program looks at. -/
def readEnvironment : IO Environment := do
  let littleEndian ← IO.getEnv "M68K_LITTLE_ENDIAN"
  let trace ← IO.getEnv "M68K_TRACE"
  let base ← IO.getEnv "M68K_BASE"
  pure ⟨littleEndian, trace, base⟩

/-- Looks up a file. -/
def readImageFile (path : String) : IO Lookup := do
  try
    let bytes ← IO.FS.readBinFile path
    pure (.file bytes.data)
  catch
    | .invalidArgument .. => pure .tooLong
    | _ => pure .missing

/-- What is shown when help is asked for. -/
def usage : String :=
  "usage: disasm68k [-h] [--base BASE] [--start START] [--end END] [--count COUNT]\n" ++
  "                 [--little-endian | --no-little-endian] [--bytes | --no-bytes] [-v] image"

/-- Shows the outcome of a run and gives the exit status. -/
def Program.Outcome.present : Program.Outcome → IO UInt32
  | .help => do
    IO.println usage
    pure 0
  | .misuse reason => do
    IO.eprintln usage
    IO.eprintln ("error: " ++ reason.message)
    pure 2
  | .badEnvironment => do
    IO.eprintln "error: M68K_BASE is not an integer"
    pure 1
  | .pathTooLong path => do
    IO.eprintln ("error: path too long: " ++ path)
    pure 1
  | .blankValue => do
    IO.eprintln "error: an option has no number"
    pure 1
  | .broken fault => do
    IO.eprintln ("error: " ++ fault.message)
    pure 1
  | .finished output log => do
    for entry in log do
      IO.eprintln entry.text
    for line in output do
      IO.println line
    pure 0

end Disasm68k

open Disasm68k in
/-- Lists the image that the command line names. -/
def main (arguments : List String) : IO UInt32 := do
  let environment ← readEnvironment
  -- only the image that the command line names is read
  let image ← match CommandLine.parse arguments with
    | .ok parsed => readImageFile parsed.image
    | .error _ => pure .missing
  (Program.run arguments environment fun _ => image).present
