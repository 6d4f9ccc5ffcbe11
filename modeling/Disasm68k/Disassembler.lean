import Disasm68k.Decode
import Disasm68k.Log

/-!
# The disassembler

A disassembler walks through a memory: it has a pointer to the next instruction, which
a decode moves past the instruction. A failed decode leaves the pointer at the
instruction's start.

- `Disassembler.decode`: the instruction at an address or at the pointer;
- `Disassembler.log`: what a decode leaves in the log;
- `disassemble`: the text of the first instruction of some bytes.

Reference: specification §6.2, the decoder surface (`Disassembler`, `disassemble`).
-/

namespace Disasm68k

/-- A memory and the address of the next instruction. -/
structure Disassembler where
  memory : Memory
  pointer : Int
deriving DecidableEq, Repr

namespace Disassembler

/-- A disassembler at the start of a memory. -/
def ofMemory (memory : Memory) : Disassembler :=
  ⟨memory, memory.base⟩

/-- Decodes the instruction at the address, or at the pointer if none is given. -/
def decode (d : Disassembler) (address : Option Int) :
    Except Fault Instruction × Disassembler :=
  let start := address.getD d.pointer
  match Fetch.decodeNext (Cursor.start d.memory start) with
  | (.ok instruction, cursor) => (.ok instruction, { d with pointer := cursor.position })
  | (.error fault, _) => (.error fault, { d with pointer := start })

/-- The log of a decode with the given outcome. -/
def log : Except Fault Instruction → List LogRecord
  | .ok instruction => [.decoded instruction]
  | .error _ => []

/-- The outcome of a decode depends on the memory and the address alone. -/
theorem decode_fst (d : Disassembler) (address : Option Int) :
    (d.decode address).1 = decodeAt d.memory (address.getD d.pointer) := by
  unfold decode decodeAt
  cases h : Fetch.decodeNext (Cursor.start d.memory (address.getD d.pointer)) with
  | mk outcome cursor => cases outcome <;> simp [h]

@[simp] theorem decode_memory (d : Disassembler) (address : Option Int) :
    (d.decode address).2.memory = d.memory := by
  unfold decode
  cases h : Fetch.decodeNext (Cursor.start d.memory (address.getD d.pointer)) with
  | mk outcome cursor => cases outcome <;> simp [h]

end Disassembler

/-- The text of the first instruction of bytes in big-endian order, mapped at an
address. -/
def disassemble (bytes : Array UInt8) (address : Int) : Except Fault String :=
  ((Disassembler.ofMemory ⟨bytes, address, .big⟩).decode (some address)).1.map Instruction.text

end Disasm68k
