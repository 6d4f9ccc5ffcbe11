import Disasm68k.Layout
import Disasm68k.Operand

/-!
# Decoded instructions

- `Instruction`: what decoding finds at an address;
- `Instruction.text`: the instruction in assembler notation;
- `Instruction.text?`: the same, unless a number in it has too many digits;
- `Instruction.same`: equality up to the layout record.

Reference: specification §3, decoded instructions (`DecodedInstr`).
-/

namespace Disasm68k

/-- An instruction found at an address. -/
structure Instruction where
  address : Int
  /-- The instruction word. -/
  opcode : Int
  mnemonic : String
  size : Option Size
  operands : List Operand
  /-- The number of bytes of the instruction, extension words included. -/
  length : Int
  /-- The fields of the extension words in the order in which they were read. -/
  layout : List Layout.Entry
deriving DecidableEq

namespace Instruction

/-- The address after the instruction. -/
def stop (instruction : Instruction) : Int :=
  instruction.address + instruction.length

/-- The mnemonic with the suffix of the size. -/
def fullMnemonic (instruction : Instruction) : String :=
  match instruction.size with
  | none => instruction.mnemonic
  | some size => instruction.mnemonic ++ size.suffix

/-- The tokens of the operands: a blank before the first, a comma before each other. -/
def operandTokens : List Operand → List Token
  | [] => []
  | first :: rest =>
    .text " " :: first.tokens ++ rest.flatMap fun operand => .separator "," :: operand.tokens

/-- The tokens of the instruction. -/
def tokens (instruction : Instruction) : List Token :=
  .instruction instruction.fullMnemonic :: operandTokens instruction.operands

/-- The instruction in assembler notation. -/
def text (instruction : Instruction) : String :=
  Token.render instruction.tokens

/-- The tokens of the instruction, unless a register cannot be named. -/
def tokens? (instruction : Instruction) : Option (List Token) := do
  let _ ← instruction.operands.mapM Operand.tokens?
  pure instruction.tokens

/-- The text of the instruction, unless a number in it has too many digits. -/
def text? (instruction : Instruction) : Option String :=
  instruction.tokens?.bind Token.render?

/-- Whether two instructions agree in all but the layout. -/
def same (a b : Instruction) : Bool :=
  { a with layout := [] } = { b with layout := [] }

end Instruction

end Disasm68k
