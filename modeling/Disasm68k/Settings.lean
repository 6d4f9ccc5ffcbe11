import Disasm68k.Text.Folding
import Disasm68k.Text.Integer

/-!
# Settings from the environment

Three environment variables set defaults: the byte order, the log level and the base
address. A flag is on unless its value says no; a base address that is not a number is
an error.

Reference: specification §8.2, configuration (`load_dasm_config`, `_env_flag`,
`_env_int`).
-/

namespace Disasm68k

/-- The values of the environment variables, where they are set. -/
structure Environment where
  littleEndian : Option String
  trace : Option String
  base : Option String
deriving DecidableEq, Repr

/-- The defaults that the environment gives. -/
structure Settings where
  littleEndian : Bool
  trace : Bool
  base : Int
deriving DecidableEq, Repr

namespace Settings

/-- The values that turn a flag off, once case and surrounding white space are gone. -/
def offWords : List (List Char) :=
  ["0".toList, "false".toList, "off".toList, "".toList]

/-- The flag that a variable sets; it is off if the variable is not set. -/
def flag : Option String → Bool
  | none => false
  | some value => !offWords.contains (Text.fold (Text.strip value.toList))

/-- The number that a variable sets, zero if it is not set or blank; nothing if it does
not read as a number. -/
def number? : Option String → Option Int
  | none => some 0
  | some value =>
    let stripped := Text.strip value.toList
    if stripped.isEmpty then some 0 else Text.parseInteger? (String.ofList stripped)

/-- The settings of an environment, unless the base address does not read as a number. -/
def ofEnvironment? (environment : Environment) : Option Settings :=
  (number? environment.base).map fun base =>
    ⟨flag environment.littleEndian, flag environment.trace, base⟩

end Settings

end Disasm68k
