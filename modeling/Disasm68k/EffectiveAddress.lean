import Disasm68k.Size
import Disasm68k.Token

/-!
# Effective addresses

An effective address is an operand that six bits of an instruction word describe: a
mode number and a register number. Modes 0 to 6 name a register; mode 7 uses the
register number to tell absolute, program-counter relative and immediate operands
apart.

- `EffectiveAddress`: one constructor per addressing mode, with the values found in
  the extension words;
- `EffectiveAddress.mode`, `EffectiveAddress.register`: the two fields that encode it;
- `EffectiveAddress.extBytes`: the bytes that it takes after the instruction word;
- `EffectiveAddress.tokens`: how it is written;
- `EffectiveAddress.tokens?`: the same, unless the number in the name of a register has too
  many digits.

Reference: specification §4.1, the mode table (`EffectiveAddress` and its classes, from
`DataReg` to `Immediate`).
-/

namespace Disasm68k

/-- An operand that is encoded by a mode and a register number. -/
inductive EffectiveAddress where
  | dataReg (reg : Int)
  | addrReg (reg : Int)
  | addrIndirect (reg : Int)
  | postIncrement (reg : Int)
  | preDecrement (reg : Int)
  | addrDisp (reg disp : Int)
  | addrIndex (reg disp index : Int)
  | absShort (addr : Int)
  | absLong (addr : Int)
  | pcDisp (disp : Int)
  | pcIndex (disp index : Int)
  | immediate (value : Int) (size : Size)
deriving DecidableEq, Repr

namespace EffectiveAddress

/-- The mode number. -/
def mode : EffectiveAddress → Int
  | dataReg _ => 0
  | addrReg _ => 1
  | addrIndirect _ => 2
  | postIncrement _ => 3
  | preDecrement _ => 4
  | addrDisp _ _ => 5
  | addrIndex _ _ _ => 6
  | absShort _ => 7
  | absLong _ => 7
  | pcDisp _ => 7
  | pcIndex _ _ => 7
  | immediate _ _ => 7

/-- The register number, which selects the kind of operand in mode 7. -/
def register : EffectiveAddress → Int
  | dataReg reg => reg
  | addrReg reg => reg
  | addrIndirect reg => reg
  | postIncrement reg => reg
  | preDecrement reg => reg
  | addrDisp reg _ => reg
  | addrIndex reg _ _ => reg
  | absShort _ => 0
  | absLong _ => 1
  | pcDisp _ => 2
  | pcIndex _ _ => 3
  | immediate _ _ => 4

/-- The number of bytes that the operand takes after the instruction word. -/
def extBytes : EffectiveAddress → Nat
  | addrDisp _ _ => 2
  | addrIndex _ _ _ => 2
  | absShort _ => 2
  | absLong _ => 4
  | pcDisp _ => 2
  | pcIndex _ _ => 2
  | immediate _ size => size.immediateBytes
  | _ => 0

/-- Whether the register number names a data or address register. -/
def namesRegister (ea : EffectiveAddress) : Bool :=
  ea.mode < 7

/-- A register of the given file, such as `D3`. -/
def registerToken (file : String) (number : Int) : Token :=
  .register (file ++ Numeral.decimal number)

/-- The text of the operand. -/
def tokens : EffectiveAddress → List Token
  | dataReg reg => [registerToken "D" reg]
  | addrReg reg => [registerToken "A" reg]
  | addrIndirect reg => [.beginMemory, registerToken "A" reg, .endMemory ""]
  | postIncrement reg => [.beginMemory, registerToken "A" reg, .endMemory "+"]
  | preDecrement reg => [.text "-", .beginMemory, registerToken "A" reg, .endMemory ""]
  | addrDisp reg disp =>
    [.beginMemory, .integer disp, .separator ",", registerToken "A" reg, .endMemory ""]
  | addrIndex reg disp index =>
    [.beginMemory, .integer disp, .separator ",", registerToken "A" reg, .separator ",",
      registerToken "X" index, .endMemory ""]
  | absShort addr => [.beginMemory, .integer addr, .endMemory ".W"]
  | absLong addr => [.beginMemory, .integer addr, .endMemory ".L"]
  | pcDisp disp => [.beginMemory, .integer disp, .separator ",", .register "PC", .endMemory ""]
  | pcIndex disp index =>
    [.beginMemory, .integer disp, .separator ",", .register "PC", .separator ",",
      registerToken "X" index, .endMemory ""]
  | immediate value _ => [.text "#", .integer value]

/-- The numbers in the names of the registers. -/
def registerNumbers : EffectiveAddress → List Int
  | dataReg reg => [reg]
  | addrReg reg => [reg]
  | addrIndirect reg => [reg]
  | postIncrement reg => [reg]
  | preDecrement reg => [reg]
  | addrDisp reg _ => [reg]
  | addrIndex reg _ index => [reg, index]
  | pcIndex _ index => [index]
  | _ => []

/-- The tokens of the operand, unless a register cannot be named. -/
def tokens? (ea : EffectiveAddress) : Option (List Token) :=
  Numeral.writing ea.registerNumbers ea.tokens

end EffectiveAddress

end Disasm68k
