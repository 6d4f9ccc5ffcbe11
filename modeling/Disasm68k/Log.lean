import Disasm68k.Instruction
import Disasm68k.Fault

/-!
# Log records

Decoding and listing leave a log: every decoded instruction at debug level, every word
that is listed as data at warning level.

Reference: specification §8.1, logging (`decode_instruction`, `iter_listing`).
-/

namespace Disasm68k

/-- How much attention a record asks for. -/
inductive LogLevel where
  | debug
  | warning
deriving DecidableEq, Repr

/-- The name of a level. -/
def LogLevel.name : LogLevel → String
  | debug => "DEBUG"
  | warning => "WARNING"

/-- One record of the log. -/
inductive LogRecord where
  /-- An instruction was decoded. -/
  | decoded (instruction : Instruction)
  /-- There is no instruction at the address. -/
  | undecodable (address : Int) (fault : Fault)
  /-- The instruction at the address does not fit into the range listed. -/
  | overrun (address : Int) (fault : Fault)
deriving DecidableEq

namespace LogRecord

/-- The level of a record. -/
def level : LogRecord → LogLevel
  | decoded _ => .debug
  | undecodable _ _ => .warning
  | overrun _ _ => .warning

/-- The part of the program that a record comes from. -/
def source : LogRecord → String
  | decoded _ => "m68000.disassembler"
  | undecodable _ _ => "m68000.listing"
  | overrun _ _ => "m68000.listing"

/-- What a record says. -/
def message : LogRecord → String
  | decoded instruction =>
    HexStyle.address.write instruction.address ++ ": " ++ instruction.text ++ " (" ++
      Numeral.decimal instruction.length ++ " bytes)"
  | undecodable address fault =>
    HexStyle.address.write address ++ ": cannot disassemble: " ++ fault.message
  | overrun address fault => HexStyle.address.write address ++ ": " ++ fault.message

/-- A record as a line of text. -/
def text (entry : LogRecord) : String :=
  entry.level.name ++ " " ++ entry.source ++ ": " ++ entry.message

end LogRecord

end Disasm68k
