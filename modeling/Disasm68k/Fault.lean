import Disasm68k.Numeral

/-!
# What can go wrong

Reading memory and decoding instructions fail for a handful of reasons. A `Fault`
names the reason together with the numbers that its message mentions, and
`Fault.message` is the only place that words it. The message is written when the fault
is met, which is itself a fault if a number in it has too many decimal digits.

- `Fault`, `Fault.message`: the reasons and their texts;
- `Fault.worded`: the fault that is met when a fault is worded;
- `Fault.isRecoverable`: whether a listing goes on after the fault.

Reference: specification §7, error handling (`InvalidInstruction` and its classes,
`BufferTooShort`).
-/

namespace Disasm68k

/-- The reasons why memory cannot be read or an instruction cannot be decoded. -/
inductive Fault where
  /-- No instruction is encoded by `word`, found at `address`. -/
  | unknownInstruction (word address : Int)
  /-- The word `word` asks for a byte move to an address register. -/
  | byteAddressMove (word : Int)
  /-- The mode and register numbers name no addressing mode. -/
  | unsupportedMode (mode register : Int)
  /-- The high byte of a byte immediate is not zero. -/
  | highByteSet (raw : Int)
  /-- An immediate was asked for with a size code that names no size, or with none. -/
  | unsupportedImmediateSize (code : Option Int)
  /-- An immediate operand was met where the instruction gives no size. -/
  | missingOperandSize
  /-- Some of the `count` bytes at `address` lie outside `[base, limit)`. -/
  | outsideMemory (count : Nat) (address base limit : Int)
  /-- The instruction `text` at `address` ends after the end `limit` of the range. -/
  | pastRange (text : String) (address limit : Int)
  /-- A rule accepts `word` but a field of it has no meaning there. -/
  | undefinedForm (word : Int)
  /-- A number in the message of a fault has too many decimal digits. -/
  | unwritable
deriving DecidableEq, Repr

namespace Fault

/-- The text of a fault. -/
def message : Fault → String
  | unknownInstruction word address =>
    "Unknown instruction " ++ HexStyle.opcode.write word ++ " at " ++ HexStyle.bare.write address
  | byteAddressMove word => "Unknown instruction " ++ HexStyle.opcode.write word ++ ": MOVEA.B"
  | unsupportedMode mode register =>
    "Unsupported addressing mode: mode " ++ Numeral.decimal mode ++ ", register " ++
      Numeral.decimal register
  | highByteSet raw =>
    "high byte of byte-immediate must be zero (got " ++ HexStyle.opcode.write raw ++ ")"
  | unsupportedImmediateSize (some code) =>
    "unsupported immediate size: " ++ Numeral.decimal code
  | unsupportedImmediateSize none => "unsupported immediate size: None"
  | missingOperandSize => "missing size for immediate operand"
  | outsideMemory count address base limit =>
    "Access of " ++ Numeral.decimal count ++ " byte(s) at " ++ HexStyle.bare.write address ++
      " outside [" ++ HexStyle.bare.write base ++ ", " ++ HexStyle.bare.write limit ++ ")"
  | pastRange text address limit =>
    text ++ " at " ++ HexStyle.bare.write address ++ " runs past end of range " ++
      HexStyle.bare.write limit
  | undefinedForm word => "No form for instruction " ++ HexStyle.opcode.write word
  | unwritable =>
    "Exceeds the limit (" ++ Numeral.decimal Numeral.maxDecimalDigits ++
      " digits) for integer string conversion"

/-- The numbers that the message of a fault has in decimal. -/
def decimals : Fault → List Int
  | unsupportedMode mode register => [mode, register]
  | unsupportedImmediateSize (some code) => [code]
  | outsideMemory count _ _ _ => [count]
  | _ => []

/-- What is met when a fault is worded: the fault itself, unless its message cannot be
written. -/
def worded (fault : Fault) : Fault :=
  (Numeral.writing fault.decimals fault).getD unwritable

/-- A listing skips a word and goes on after every fault but an undefined form and a
message that cannot be written. -/
def isRecoverable : Fault → Bool
  | undefinedForm _ => false
  | unwritable => false
  | _ => true

end Fault

end Disasm68k
