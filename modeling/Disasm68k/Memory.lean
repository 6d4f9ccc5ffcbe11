import Disasm68k.Fault
import Disasm68k.Size

/-!
# Byte-addressable memory

A memory is a finite run of bytes mapped at a base address. Numbers of one, two or
four bytes are loaded from it and stored into it in the memory's byte order.

- `ByteOrder.assemble`, `ByteOrder.split`: a list of bytes as a natural number, and an
  integer as a list of bytes in two's complement;
- `Access`: the size and the sign of a load or a store;
- `Memory.zeroed`: a memory of zeros, if there is one of the size;
- `Memory.byte?`, `Memory.slice?`: the byte at an address, and a run of bytes;
- `Memory.load`, `Memory.store`: whole numbers. A store checks the address first, then
  clears the bytes, then checks the value: a value out of range leaves zeros behind.

Reference: specification §6.1, addressable memory (`Memory`).
-/

namespace Disasm68k

/-! ## Byte order -/

/-- Which end of a number stands at the lowest address. -/
inductive ByteOrder where
  | big
  | little
deriving DecidableEq, Repr

namespace ByteOrder

/-- The number spelled by bytes that begin with the least significant one. -/
def assembleLow : List UInt8 → Nat
  | [] => 0
  | b :: rest => b.toNat + 256 * assembleLow rest

/-- The number spelled by the bytes of consecutive addresses. -/
def assemble : ByteOrder → List UInt8 → Nat
  | little, bytes => assembleLow bytes
  | big, bytes => assembleLow bytes.reverse

/-- The low `count` bytes of an integer, least significant first. -/
def splitLow : Nat → Int → List UInt8
  | 0, _ => []
  | count + 1, value => UInt8.ofNat (value % 256).toNat :: splitLow count (value / 256)

/-- The low `count` bytes of an integer in the order of addresses. -/
def split : ByteOrder → Nat → Int → List UInt8
  | little, count, value => splitLow count value
  | big, count, value => (splitLow count value).reverse

end ByteOrder

/-! ## Accesses -/

/-- How many bytes a load or store moves and whether they are read with a sign. -/
structure Access where
  size : Size
  signed : Bool
deriving DecidableEq, Repr

namespace Access

/-- A signed byte. -/
def int8 : Access := ⟨.byte, true⟩

/-- An unsigned byte. -/
def uint8 : Access := ⟨.byte, false⟩

/-- A signed word. -/
def int16 : Access := ⟨.word, true⟩

/-- An unsigned word. -/
def uint16 : Access := ⟨.word, false⟩

/-- A signed long word. -/
def int32 : Access := ⟨.long, true⟩

/-- An unsigned long word. -/
def uint32 : Access := ⟨.long, false⟩

/-- The number of bytes moved. -/
def byteCount (access : Access) : Nat :=
  access.size.byteCount

/-- The number of values that the bytes can spell. -/
def span (access : Access) : Int :=
  match access.size with
  | .byte => 0x100
  | .word => 0x10000
  | .long => 0x100000000

/-- The value of bytes that spell the natural number `raw`: with a sign, the upper
half of the numbers stands for the negative ones. -/
def interpret (access : Access) (raw : Nat) : Int :=
  if access.signed ∧ access.span ≤ 2 * raw then raw - access.span else raw

/-- Whether the value can be stored. -/
def fits (access : Access) (value : Int) : Bool :=
  if access.signed then -access.span ≤ 2 * value && 2 * value < access.span
  else 0 ≤ value && value < access.span

end Access

/-! ## Memories -/

/-- A run of bytes mapped at `base`. -/
structure Memory where
  bytes : Array UInt8
  base : Int
  order : ByteOrder
deriving DecidableEq, Repr

/-- Why there is no memory of a given size. -/
inductive SizeFault where
  /-- The size is not a signed number of 64 bits. -/
  | unrepresentable
  | negative
  /-- There is no room for so many bytes. -/
  | noRoom
deriving DecidableEq, Repr

/-- Why a store fails. -/
inductive StoreFault where
  /-- Some of the bytes to be written lie outside the memory. -/
  | unreachable (fault : Fault)
  /-- The value has no representation of the stored size and sign. -/
  | valueOutOfRange
deriving DecidableEq, Repr

namespace Memory

/-- A memory of zeros, where there is room for fewer than `room` bytes. -/
def zeroed (room size base : Int) (order : ByteOrder) : Except SizeFault Memory :=
  if size < -0x8000000000000000 ∨ 0x8000000000000000 ≤ size then .error .unrepresentable
  else if size < 0 then .error .negative
  else if room ≤ size then .error .noRoom
  else .ok ⟨Array.replicate size.toNat 0, base, order⟩

/-- The number of bytes. -/
def size (memory : Memory) : Nat :=
  memory.bytes.size

/-- The address after the last byte. -/
def limit (memory : Memory) : Int :=
  memory.base + memory.size

/-- The byte at an address. -/
def byte? (memory : Memory) (address : Int) : Option UInt8 :=
  if address < memory.base then none else memory.bytes[(address - memory.base).toNat]?

/-- The `count` bytes from an address on, if the memory holds them all. -/
def slice? (memory : Memory) (address : Int) : Nat → Option (List UInt8)
  | 0 => some []
  | count + 1 => do
    let b ← memory.byte? address
    let rest ← memory.slice? (address + 1) count
    pure (b :: rest)

/-- The fault of an access to bytes that the memory does not hold. -/
def accessFault (memory : Memory) (access : Access) (address : Int) : Fault :=
  .outsideMemory access.byteCount address memory.base memory.limit

/-- The number of the given size and sign at an address. -/
def load (memory : Memory) (access : Access) (address : Int) : Except Fault Int :=
  match memory.slice? address access.byteCount with
  | none => .error (memory.accessFault access address)
  | some bytes => .ok (access.interpret (memory.order.assemble bytes))

/-- Replaces the bytes from an index on. -/
def overwrite (bytes : Array UInt8) (index : Nat) : List UInt8 → Array UInt8
  | [] => bytes
  | b :: rest => overwrite (bytes.setIfInBounds index b) (index + 1) rest

/-- The memory with other bytes from an address on. -/
def write (memory : Memory) (address : Int) (bytes : List UInt8) : Memory :=
  { memory with bytes := overwrite memory.bytes (address - memory.base).toNat bytes }

/-- Stores a number of the given size and sign at an address, and gives the memory
after it. The bytes are cleared before the value is looked at. -/
def store (memory : Memory) (access : Access) (address value : Int) :
    Except StoreFault Unit × Memory :=
  if (memory.slice? address access.byteCount).isNone then
    (.error (.unreachable (memory.accessFault access address)), memory)
  else if access.fits value then
    (.ok (), memory.write address (memory.order.split access.byteCount value))
  else
    (.error .valueOutOfRange, memory.write address (List.replicate access.byteCount 0))

end Memory

end Disasm68k
