import Disasm68k.CommandLine
import Disasm68k.Directory
import Disasm68k.Listing
import Disasm68k.Settings

/-!
# The program

The program reads a command line, the environment and an image file, and prints the
listing of the image. What the command line says goes before what the environment says.

- `Program.Outcome`: how a run ends;
- `Program.run`: a run, given a way to look up files.

Reference: specification §6.4, the command line, and §8.2, configuration (`main`).
-/

namespace Disasm68k

namespace Program

/-- How a run ends. -/
inductive Outcome where
  /-- Help was asked for. -/
  | help
  /-- The command line is wrong. -/
  | misuse (misuse : CommandLine.Misuse)
  /-- The environment holds no valid base address. -/
  | badEnvironment
  /-- The path of the image is too long to be looked up. -/
  | pathTooLong (path : String)
  /-- An option has a blank value where the listing needs a number. -/
  | blankValue
  /-- The listing broke off. -/
  | broken (fault : Fault)
  /-- The listing was printed, and these log records were shown. -/
  | finished (output : List String) (log : List LogRecord)
deriving DecidableEq

/-- The memory that holds the image, unless the base address is blank. -/
def imageMemory? (options : CommandLine.Options) (settings : Settings) (image : Array UInt8) :
    Option Memory :=
  options.base.number?.map fun base =>
    { bytes := image
      base := base.getD settings.base
      order := if options.littleEndian.getD settings.littleEndian then .little else .big }

/-- The range to be listed, unless a number that it depends on is blank. The count is not
looked at when there is nothing to be counted. -/
def range? (options : CommandLine.Options) (memory : Memory) : Option Range :=
  match options.start.number?, options.stop.number? with
  | some start, some stop =>
    let unlimited : Range := ⟨start, stop, none⟩
    match options.count.number? with
    | some count => some { unlimited with count := count }
    | none => if (Walk.ofRange memory unlimited).isDone then some unlimited else none
  | _, _ => none

/-- Whether a log record is shown. -/
def isShown (verbose : Bool) (entry : LogRecord) : Bool :=
  verbose || entry.level = .warning

/-- The listing of a range of memory as the options ask for it. -/
def report (options : CommandLine.Options) (settings : Settings) (memory : Memory)
    (range : Range) : Outcome :=
  match listing memory range with
  | .error fault => .broken fault
  | .ok steps =>
    .finished (steps.map fun step => step.line.format options.bytes)
      ((steps.flatMap WalkStep.log).filter (isShown (options.verbose || settings.trace)))

/-- The listing of an image, unless an option that it depends on is blank. -/
def listImage (options : CommandLine.Options) (settings : Settings) (image : Array UInt8) :
    Outcome :=
  match imageMemory? options settings image with
  | none => .blankValue
  | some memory =>
    match range? options memory with
    | none => .blankValue
    | some range => report options settings memory range

/-- Runs the program. Errors of the command line come first, then those of the
environment, then a missing image, then blank values. -/
def run (arguments : List String) (environment : Environment) (lookup : String → Lookup) :
    Outcome :=
  match CommandLine.parse arguments with
  | .error .help => .help
  | .error (.misuse misuse) => .misuse misuse
  | .ok parsed =>
    match Settings.ofEnvironment? environment with
    | none => .badEnvironment
    | some settings =>
      match lookup parsed.image with
      | .tooLong => .pathTooLong parsed.image
      | .missing => .misuse (.imageNotFound parsed.image)
      | .file image => listImage parsed.options settings image

end Program

end Disasm68k
