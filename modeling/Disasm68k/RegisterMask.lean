import Disasm68k.Bits

/-!
# Register masks

The instruction that moves several registers at once names them by a mask of sixteen
bits. Registers to memory: bit `i` names register `i` of D0 … D7, A0 … A7. Memory to
registers: the bits count from the other end.

- `RegisterMask.table`: the register of each bit;
- `RegisterMask.selected`: the registers of the bits that are set;
- `RegisterMask.names`: the same, always in the order D0 … D7, A0 … A7.

Reference: specification §4.4, register masks (`movem_register_names`).
-/

namespace Disasm68k

namespace RegisterMask

/-- The registers that a mask can name. -/
def registers : List String :=
  ["D0", "D1", "D2", "D3", "D4", "D5", "D6", "D7",
   "A0", "A1", "A2", "A3", "A4", "A5", "A6", "A7"]

/-- The registers in the order of the bits that stand for them. -/
def table (memoryToRegister : Bool) : List String :=
  if memoryToRegister then registers.reverse else registers

/-- The registers of the bits that are set in the mask, in the order of the bits. -/
def selected (mask : Int) (memoryToRegister : Bool) : List String :=
  ((table memoryToRegister).zipIdx.filter fun entry => bits mask entry.2 1 == 1).map Prod.fst

/-- The names of the registers that the mask selects. -/
def names (mask : Int) (memoryToRegister : Bool) : List String :=
  registers.filter fun name => name ∈ selected mask memoryToRegister

end RegisterMask

end Disasm68k
