import Disasm68k.Cursor
import Disasm68k.Operand
import Disasm68k.RegisterMask

/-!
# Operand slots

The instruction word says of each operand where it comes from. An operand is either
complete in the instruction word, or a field of the extension words holds its value,
or there is no such operand. The word alone decides this, so slots can be computed
before anything else is read.

- `Field`: the kinds of fields, with the access that reads one and the operand that the
  number read stands for;
- `Slot`: the three cases;
- `Slot.ofMode`: the slot of a mode and a register number;
- `Slot.fetch`, `Slot.fetchAll`: the operands of slots, read in order;
- `Fetch.address`, `Fetch.immediate`: an operand and an immediate by numbers of any size, which
  may be too long for the message of a fault.

Reference: specification §4.1, the resolver (`resolve_ea`), and §4.2, the immediate
reader (`read_immediate`).
-/

namespace Disasm68k

/-- A field of the extension words. -/
inductive Field where
  /-- A displacement from an address register. -/
  | addrDisp (reg : Int)
  /-- A displacement and an index register, added to an address register. -/
  | addrIndex (reg : Int)
  /-- A short absolute address. -/
  | absShort
  /-- A long absolute address. -/
  | absLong
  /-- A displacement from the program counter. -/
  | pcDisp
  /-- A displacement and an index register, added to the program counter. -/
  | pcIndex
  /-- A number. -/
  | immediate (size : Size)
  /-- The number of a bit. -/
  | bitNumber
  /-- A mask of registers. -/
  | regList (memoryToRegister : Bool)
  /-- The displacement of a branch. -/
  | branchDisp
deriving DecidableEq, Repr

namespace Field

/-- How the field is read. -/
def access : Field → Access
  | addrDisp _ => .int16
  | addrIndex _ => .uint16
  | absShort => .int16
  | absLong => .uint32
  | pcDisp => .int16
  | pcIndex => .uint16
  | immediate .byte => .uint16
  | immediate .word => .int16
  | immediate .long => .int32
  | bitNumber => .uint16
  | regList _ => .uint16
  | branchDisp => .int16

/-- The name of the field in the layout record. -/
def kind : Field → String
  | addrDisp _ => "d16_an"
  | addrIndex _ => "d8_an_xn"
  | absShort => "abs_w"
  | absLong => "abs_l"
  | pcDisp => "d16_pc"
  | pcIndex => "d8_pc_xn"
  | immediate .byte => "imm8"
  | immediate .word => "imm16"
  | immediate .long => "imm32"
  | bitNumber => "bitnum"
  | regList _ => "reglist"
  | branchDisp => "disp16"

/-- What the layout record tells of the field besides its place: the width of an
immediate in bits. -/
def details : Field → List (String × Layout.Detail)
  | immediate size => [(Layout.Entry.widthName, .number (8 * size.byteCount))]
  | _ => []

/-- The displacement in an index extension word: its low byte with a sign. -/
def indexDisp (raw : Int) : Int :=
  signExtend (bits raw 0 8) 8

/-- The index register in an index extension word. -/
def indexReg (raw : Int) : Int :=
  bits raw 8 3

/-- The value of an immediate. A byte stands in the low half of a word whose high half
must be zero. -/
def immediateValue (size : Size) (raw : Int) : Except Fault Int :=
  match size with
  | .byte => if bits raw 8 8 = 0 then .ok (bits raw 0 8) else .error (.highByteSet raw)
  | .word => .ok raw
  | .long => .ok raw

/-- The operand for which the number in the field stands. Bit numbers count modulo 32. -/
def operand : Field → Int → Except Fault Operand
  | addrDisp reg, raw => .ok (.ea (.addrDisp reg raw))
  | addrIndex reg, raw => .ok (.ea (.addrIndex reg (indexDisp raw) (indexReg raw)))
  | absShort, raw => .ok (.ea (.absShort raw))
  | absLong, raw => .ok (.ea (.absLong raw))
  | pcDisp, raw => .ok (.ea (.pcDisp raw))
  | pcIndex, raw => .ok (.ea (.pcIndex (indexDisp raw) (indexReg raw)))
  | immediate size, raw =>
    match immediateValue size raw with
    | .ok value => .ok (.ea (.immediate value size))
    | .error fault => .error fault
  | bitNumber, raw => .ok (.ea (.immediate (raw % 32) .byte))
  | regList memoryToRegister, raw =>
    .ok (.regList raw (RegisterMask.names raw memoryToRegister))
  | branchDisp, raw => .ok (.branchDisp raw)

/-- Reads the field, interprets the number and records the field under a key. A number
that cannot be interpreted has been read but is not recorded. -/
def fetchAs {α : Type} (field : Field) (key : String) (interpret : Int → Except Fault α) :
    Fetch α := do
  let before ← Fetch.here
  let raw ← Fetch.read field.access
  let value ← Fetch.ofExcept (interpret raw)
  Fetch.record key field.kind (some before.idx) field.details
  pure value

/-- Reads the field as an operand. -/
def fetch (field : Field) (key : String) : Fetch Operand :=
  field.fetchAs key field.operand

theorem advances_fetchAs {α : Type} (field : Field) (key : String)
    (interpret : Int → Except Fault α) : (field.fetchAs key interpret).Advances :=
  Fetch.advances_bind Fetch.advances_here fun _ =>
    Fetch.advances_bind (Fetch.advances_read _) fun _ =>
      Fetch.advances_bind (Fetch.advances_ofExcept _) fun _ =>
        Fetch.advances_bind (Fetch.advances_record _ _ _ _) fun _ => Fetch.advances_pure _

end Field

/-- Where an operand comes from. -/
inductive Slot where
  /-- The instruction word holds the operand. -/
  | fixed (operand : Operand)
  /-- A field of the extension words holds the operand's value. -/
  | extension (key : String) (field : Field)
  /-- There is no such operand. -/
  | invalid (fault : Fault)
deriving DecidableEq, Repr

namespace Slot

/-- A data register. -/
def dataReg (reg : Int) : Slot :=
  fixed (.ea (.dataReg reg))

/-- An address register. -/
def addrReg (reg : Int) : Slot :=
  fixed (.ea (.addrReg reg))

/-- The slot of an immediate operand with an optional size code. -/
def ofImmediate (code : Option Int) (key : String) : Slot :=
  match code with
  | none => invalid .missingOperandSize
  | some n =>
    match Size.ofCode? n with
    | some size => extension key (.immediate size)
    | none => invalid (.unsupportedImmediateSize (some n))

/-- The slot of a mode and a register number. The size code matters only for an
immediate operand. -/
def ofMode (mode reg : Int) (code : Option Int) (key : String) : Slot :=
  if mode = 0 then fixed (.ea (.dataReg reg))
  else if mode = 1 then fixed (.ea (.addrReg reg))
  else if mode = 2 then fixed (.ea (.addrIndirect reg))
  else if mode = 3 then fixed (.ea (.postIncrement reg))
  else if mode = 4 then fixed (.ea (.preDecrement reg))
  else if mode = 5 then extension key (.addrDisp reg)
  else if mode = 6 then extension key (.addrIndex reg)
  else if mode = 7 ∧ reg = 0 then extension key .absShort
  else if mode = 7 ∧ reg = 1 then extension key .absLong
  else if mode = 7 ∧ reg = 2 then extension key .pcDisp
  else if mode = 7 ∧ reg = 3 then extension key .pcIndex
  else if mode = 7 ∧ reg = 4 then ofImmediate code key
  else invalid (.unsupportedMode mode reg)

/-- Reads the operand of a slot. -/
def fetch : Slot → Fetch Operand
  | fixed operand => pure operand
  | extension key field => field.fetch key
  | invalid fault => Fetch.fail fault

/-- Reads the operands of slots in order. -/
def fetchAll : List Slot → Fetch (List Operand)
  | [] => pure []
  | slot :: slots => do
    let operand ← slot.fetch
    let operands ← fetchAll slots
    pure (operand :: operands)

theorem advances_fetch (slot : Slot) : slot.fetch.Advances := by
  cases slot with
  | fixed operand => exact Fetch.advances_pure _
  | extension key field => exact field.advances_fetchAs _ _
  | invalid fault => exact Fetch.advances_fail _

theorem advances_fetchAll : ∀ slots : List Slot, (fetchAll slots).Advances
  | [] => Fetch.advances_pure _
  | slot :: slots =>
    Fetch.advances_bind slot.advances_fetch fun _ =>
      Fetch.advances_bind (advances_fetchAll slots) fun _ => Fetch.advances_pure _

end Slot

namespace Fetch

/-- The step whose faults are worded when they are met. -/
def worded {α : Type} (step : Fetch α) : Fetch α :=
  fun cursor =>
    let (outcome, cursor') := step cursor
    (outcome.mapError Fault.worded, cursor')

/-- Reads the operand of a mode and a register number. -/
def address (mode reg : Int) (code : Option Int) (key : String) : Fetch Operand :=
  (Slot.ofMode mode reg code key).fetch.worded

/-- Reads an immediate of the size that a code names. -/
def immediate (code : Option Int) (key : String) : Fetch Int :=
  match code.bind Size.ofCode? with
  | some size => (Field.immediate size).fetchAs key (Field.immediateValue size)
  | none => (Fetch.fail (.unsupportedImmediateSize code)).worded

end Fetch

end Disasm68k
