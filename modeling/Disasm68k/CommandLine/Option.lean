/-!
# Options of the command line

- `CommandLine.Action`: what an option does;
- `CommandLine.optionNames`: the spellings of the options;
- `CommandLine.Action.label`: how messages name an option.

Reference: specification §6.4, the options that `build_parser` declares.
-/

namespace Disasm68k

namespace CommandLine

/-- The options that take a number. -/
inductive NumberOption where
  | base
  | start
  | stop
  | count
deriving DecidableEq, Repr

/-- The options that are on or off. -/
inductive FlagOption where
  | littleEndian
  | bytes
  | verbose
deriving DecidableEq, Repr

/-- What an option does. -/
inductive Action where
  /-- Shows help and ends the program. -/
  | help
  /-- Sets a number. -/
  | number (option : NumberOption)
  /-- Turns a flag on or off. -/
  | flag (option : FlagOption) (value : Bool)
deriving DecidableEq, Repr

/-- A spelling of an option. -/
structure OptionName where
  chars : List Char
  action : Action
deriving DecidableEq, Repr

/-- All spellings, in the order in which messages list them. -/
def optionNames : List OptionName :=
  [ ⟨"-h".toList, .help⟩,
    ⟨"--help".toList, .help⟩,
    ⟨"--base".toList, .number .base⟩,
    ⟨"--start".toList, .number .start⟩,
    ⟨"--end".toList, .number .stop⟩,
    ⟨"--count".toList, .number .count⟩,
    ⟨"--little-endian".toList, .flag .littleEndian true⟩,
    ⟨"--no-little-endian".toList, .flag .littleEndian false⟩,
    ⟨"--bytes".toList, .flag .bytes true⟩,
    ⟨"--no-bytes".toList, .flag .bytes false⟩,
    ⟨"-v".toList, .flag .verbose true⟩,
    ⟨"--verbose".toList, .flag .verbose true⟩ ]

/-- The option of exactly this spelling. -/
def findOption? (chars : List Char) : Option OptionName :=
  optionNames.find? fun name => name.chars = chars

/-- How messages name an option that takes a number. -/
def NumberOption.label : NumberOption → String
  | base => "--base"
  | start => "--start"
  | stop => "--end"
  | count => "--count"

/-- What messages call the value of an option that takes a number. -/
def NumberOption.valueName : NumberOption → String
  | count => "int"
  | _ => "_int"

/-- How messages name an option. -/
def Action.label : Action → String
  | help => "-h/--help"
  | number option => option.label
  | flag .littleEndian _ => "--little-endian/--no-little-endian"
  | flag .bytes _ => "--bytes/--no-bytes"
  | flag .verbose _ => "-v/--verbose"

end CommandLine

end Disasm68k
