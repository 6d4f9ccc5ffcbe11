import Disasm68k.Bits

/-!
# Fields of an instruction word

Most instructions place their operands in the same few bit fields. A word may be any
integer; the fields look at its low sixteen bits only.

Reference: specification §4.3, field names (`Fields`).
-/

namespace Disasm68k

namespace Opcode

/-- Bits 15 to 12: the group of the instruction. -/
def group (word : Int) : Int := bits word 12 4

/-- Bits 11 to 9: a register number or an operation. -/
def rx (word : Int) : Int := bits word 9 3

/-- Bits 8 to 6: operation mode, or the mode of the destination of a move. -/
def opmode (word : Int) : Int := bits word 6 3

/-- Bits 7 and 6: the operand size. -/
def sizeCode (word : Int) : Int := bits word 6 2

/-- Bits 5 to 3: the mode of the effective address. -/
def mode (word : Int) : Int := bits word 3 3

/-- Bits 2 to 0: the register of the effective address. -/
def reg (word : Int) : Int := bits word 0 3

/-- Bit 8: direction, or which of two forms. -/
def bit8 (word : Int) : Int := bits word 8 1

/-- Bits 11 to 8: the condition. -/
def cond (word : Int) : Int := bits word 8 4

end Opcode

end Disasm68k
