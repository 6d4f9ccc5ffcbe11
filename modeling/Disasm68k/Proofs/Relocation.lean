import Disasm68k.Disassembler
import Disasm68k.Proofs.Failure
import Disasm68k.Proofs.Tiling

/-!
# Instructions can be moved

What is decoded at an address depends on the bytes from there on and on nothing else: not on
the address, not on where the memory begins or ends, and not on bytes that the instruction does
not count as its own. So an instruction whose bytes are copied to another place is found there
again, and a word that is refused is refused there for the same reason.

- `Memory.Copied`: bytes of one memory that stand in another one too;
- `Memory.load_of_copied`: a load finds the same number in the copy;
- `Slot.reads_of_copied`, `Slot.fails_of_copied`: slots read, or fail, as they do in the original;
- `decodeAt_of_copied`, `exists_decodeAt_error_of_copied`: so does a whole instruction;
- `Disassembler.decode_of_copied_bytes`: the two together.
-/

namespace Disasm68k

/-! ## Copies of bytes -/

namespace Memory

/-- Of the `count` bytes from `address` on, those that `memory` holds stand in `other` as well,
from `address'` on, and both memories have the same byte order. -/
structure Copied (memory : Memory) (address : Int) (count : Nat) (other : Memory)
    (address' : Int) : Prop where
  order_eq : memory.order = other.order
  byte_eq : ∀ k < count, (memory.byte? (address + k)).isSome →
    other.byte? (address' + k) = memory.byte? (address + k)

instance (memory : Memory) (address : Int) (count : Nat) (other : Memory) (address' : Int) :
    Decidable (memory.Copied address count other address') :=
  decidable_of_iff (memory.order = other.order ∧
      ∀ k < count, (memory.byte? (address + k)).isSome →
        other.byte? (address' + k) = memory.byte? (address + k))
    ⟨fun h => ⟨h.1, h.2⟩, fun h => ⟨h.order_eq, h.byte_eq⟩⟩

variable {memory other : Memory} {address address' : Int} {count n : Nat}

theorem Copied.mono (h : memory.Copied address count other address') (hn : n ≤ count) :
    memory.Copied address n other address' :=
  ⟨h.order_eq, fun k hk => h.byte_eq k (Nat.lt_of_lt_of_le hk hn)⟩

/-- Behind the first bytes of a copy stands a copy of what follows them. -/
theorem Copied.drop (h : memory.Copied address count other address') (n : Nat) :
    memory.Copied (address + n) (count - n) other (address' + n) := by
  refine ⟨h.order_eq, ?_⟩
  intro k hk
  have hbyte := h.byte_eq (n + k) (by omega)
  rw [Int.natCast_add, ← Int.add_assoc, ← Int.add_assoc] at hbyte
  exact hbyte

theorem slice?_of_copied (h : memory.Copied address count other address') (hn : n ≤ count)
    {bytes : List UInt8} (hslice : memory.slice? address n = some bytes) :
    other.slice? address' n = some bytes := by
  obtain ⟨hlength, hbytes⟩ := slice?_eq_some_iff.mp hslice
  refine slice?_eq_some_iff.mpr ⟨hlength, ?_⟩
  intro k hk
  have hsome : (memory.byte? (address + k)).isSome := by
    rw [hbytes k hk, List.getElem?_eq_getElem (by omega), Option.isSome_some]
  rw [h.byte_eq k (by omega) hsome, hbytes k hk]

/-- A run of bytes that begins another one is copied where the other one stands. -/
theorem copied_of_begins {bytes bytes' : List UInt8} (horder : memory.order = other.order)
    (hslice : memory.slice? address count = some bytes)
    (hslice' : other.slice? address' n = some bytes') (hbegins : bytes <+: bytes') :
    memory.Copied address count other address' := by
  obtain ⟨hlength, hbytes⟩ := slice?_eq_some_iff.mp hslice
  obtain ⟨hlength', hbytes'⟩ := slice?_eq_some_iff.mp hslice'
  obtain ⟨rest, rfl⟩ := hbegins
  rw [List.length_append] at hlength'
  refine ⟨horder, ?_⟩
  intro k hk _
  rw [hbytes k hk, hbytes' k (by omega), List.getElem?_append_left (by omega)]

/-- A load finds in a copy the number that it finds in the original. -/
theorem load_of_copied {access : Access} {value : Int}
    (h : memory.Copied address count other address') (hcount : access.byteCount ≤ count)
    (hload : memory.load access address = .ok value) : other.load access address' = .ok value := by
  unfold load at hload ⊢
  cases hslice : memory.slice? address access.byteCount with
  | none => simp [hslice] at hload
  | some bytes =>
    rw [slice?_of_copied h hcount hslice, ← h.order_eq]
    simpa [hslice] using hload

end Memory

/-! ## Slots -/

variable {memory other : Memory} {address address' : Int} {count : Nat}

theorem Field.yields_of_copied {field : Field} {operand : Operand}
    (h : memory.Copied address count other address') (hcount : field.extent ≤ count)
    (hyields : field.Yields memory address operand) : field.Yields other address' operand := by
  obtain ⟨raw, hload, hoperand⟩ := hyields
  exact ⟨raw, Memory.load_of_copied h hcount hload, hoperand⟩

namespace Slot

variable {slots : List Slot}

/-- Slots have the same operands in a copy of the bytes that they take. -/
theorem reads_of_copied {operands : List Operand} (hreads : Reads memory address slots operands)
    (h : memory.Copied address count other address') (hcount : extent slots ≤ count) :
    Reads other address' slots operands := by
  induction hreads generalizing address' count with
  | nil address => exact .nil _
  | fixed rest ih => exact .fixed (ih h hcount)
  | @extension address key field operand slots operands head rest ih =>
    simp only [extent] at hcount
    exact .extension (Field.yields_of_copied h (by omega) head)
      (ih (h.drop field.extent) (by omega))

/-- Slots fail for the same reason in a copy of the bytes that they take, unless the reason is
that the original has no more bytes. -/
theorem fails_of_copied {fault : Fault} (hfails : Fails memory address slots fault)
    (hkind : fault.kind ≠ .bufferTooShort) (h : memory.Copied address count other address')
    (hcount : extent slots ≤ count) : Fails other address' slots fault := by
  induction hfails generalizing address' count with
  | invalid => exact .invalid
  | unreadable load =>
    obtain ⟨-, rfl⟩ := Memory.load_eq_error_iff.mp load
    exact absurd (Memory.kind_accessFault ..) hkind
  | @refused address raw key field slots fault load refuses =>
    simp only [extent] at hcount
    have hfield : field.access.byteCount ≤ count := Nat.le_trans (Nat.le_add_right ..) hcount
    exact .refused (Memory.load_of_copied h hfield load) refuses
  | afterFixed rest ih => exact .afterFixed (ih hkind h hcount)
  | @afterField address key field operand slots fault head rest ih =>
    simp only [extent] at hcount
    exact .afterField (Field.yields_of_copied h (by omega) head)
      (ih hkind (h.drop field.extent) (by omega))

end Slot

/-! ## Instructions -/

/-- The form of a word does not depend on where the word stands. -/
theorem Opcode.form_of_form {word : Int} {form : Form} (h : Opcode.form word address = .ok form)
    (address' : Int) : Opcode.form word address' = .ok form :=
  Rule.form_eq_ok_iff.mpr (Rule.form_eq_ok_iff.mp h)

/-- A word without a form has none anywhere. -/
theorem Opcode.form_of_first?_eq_none {word : Int} (h : Rule.first? word = none) (address : Int) :
    Opcode.form word address = .error (.unknownInstruction word address) := by
  rw [Opcode.form_eq]
  rw [h]

/-- **An instruction can be moved.** Where its bytes are copied to, it is found again. -/
theorem decodeAt_of_copied {instruction : Instruction}
    (hdecode : decodeAt memory address = .ok instruction)
    (h : memory.Copied address instruction.length.toNat other address') :
    decodeAt other address' = .ok { instruction with address := address' } := by
  obtain ⟨word, form, operands, hload, hform, hreads, rfl⟩ := decodeAt_eq_ok_iff.mp hdecode
  have hlength : (form.instruction address word operands).length.toNat =
      2 + Slot.extent form.slots := by
    show (2 + (Slot.extent form.slots : Int)).toNat = _
    omega
  rw [hlength] at h
  refine decodeAt_eq_ok_iff.mpr ⟨word, form, operands, ?_, Opcode.form_of_form hform address',
    ?_, rfl⟩
  · exact Memory.load_of_copied h (Nat.le_add_right ..) hload
  · exact Slot.reads_of_copied hreads (h.drop 2) (by omega)

/-- Decoding looks at no more than ten bytes, so what is refused because of them is refused
wherever they are copied to. -/
theorem exists_decodeAt_error_of_copied {fault : Fault}
    (hdecode : decodeAt memory address = .error fault) (hkind : fault.kind ≠ .bufferTooShort)
    (h : memory.Copied address 10 other address') :
    ∃ fault', decodeAt other address' = .error fault' ∧ fault'.kind = fault.kind := by
  rcases decodeAt_eq_error_iff.mp hdecode with hload | ⟨word, hload, hform | ⟨form, hform, hfails⟩⟩
  · obtain ⟨-, rfl⟩ := Memory.load_eq_error_iff.mp hload
    exact absurd (Memory.kind_accessFault ..) hkind
  · -- The fault tells the address of the unknown word, which is another one in the copy.
    obtain ⟨hfirst, rfl⟩ := Rule.form_eq_error hform
    refine ⟨.unknownInstruction word address', decodeAt_eq_error_iff.mpr (.inr ⟨word, ?_, .inl ?_⟩),
      rfl⟩
    · exact Memory.load_of_copied h (by decide) hload
    · exact Opcode.form_of_first?_eq_none hfirst address'
  · have hslots := Slot.extent_le form.slots
    have htwo := Slot.length_le_two_of_planned (Opcode.planned_slots_of_form hform)
    refine ⟨fault, decodeAt_eq_error_iff.mpr (.inr ⟨word, ?_, .inr ⟨form, ?_, ?_⟩⟩), rfl⟩
    · exact Memory.load_of_copied h (by decide) hload
    · exact Opcode.form_of_form hform address'
    · exact Slot.fails_of_copied hfails hkind (h.drop 2) (by omega)

namespace Disassembler

/-- **Decoding depends on the bytes of the instruction only.** If the bytes of an instruction
stand somewhere in another memory of the same byte order, the same instruction is decoded there,
with the same text and layout, and nothing but its addresses differ, by the distance of the two
places. If no instruction is decoded, because the word is unknown, an addressing mode does not
exist or an operand is malformed, and the other memory has the same bytes as far as the first
one reaches, ten of them at most, then it is refused there for the same kind of reason. -/
theorem decode_of_copied_bytes (d d' : Disassembler) (address address' : Int) :
    (∀ instruction, (d.decode (some address)).1 = .ok instruction →
      d.memory.Copied address instruction.length.toNat d'.memory address' →
      ∃ moved, (d'.decode (some address')).1 = .ok moved ∧
        moved = { instruction with address := address' } ∧
        moved.text = instruction.text ∧
        moved.address - instruction.address = address' - address ∧
        moved.stop - instruction.stop = address' - address) ∧
    ∀ fault, (d.decode (some address)).1 = .error fault →
      fault.kind ∈ [.unknownInstruction, .unsupportedMode, .malformedOperand] →
      d.memory.Copied address 10 d'.memory address' →
      ∃ fault', (d'.decode (some address')).1 = .error fault' ∧ fault'.kind = fault.kind := by
  rw [d.decode_fst, d'.decode_fst]
  refine ⟨?_, ?_⟩
  · intro instruction hdecode hcopied
    have haddress := (spans_of_decodeAt hdecode).address_eq
    refine ⟨_, decodeAt_of_copied hdecode hcopied, rfl, rfl, ?_, ?_⟩
    · show address' - instruction.address = address' - address
      rw [haddress]
      rfl
    · show address' + instruction.length - (instruction.address + instruction.length) = _
      rw [haddress]
      show address' + instruction.length - (address + instruction.length) = _
      omega
  · intro fault hdecode hkind hcopied
    refine exists_decodeAt_error_of_copied hdecode ?_ hcopied
    intro hshort
    rw [hshort] at hkind
    exact absurd hkind (by decide)

/-- A branch is found again behind another instruction, and what is wrong with a byte of data
is found again in the middle of other data. -/
theorem decode_of_copied_bytes_elsewhere :
    (∃ moved, ((ofMemory ⟨#[0x4E, 0x71, 0x66, 0x00, 0xFF, 0x80], 0x1000, .big⟩).decode
        (some 0x1002)).1 = .ok moved ∧ moved.operands = [.branchDisp (-128)]) ∧
      ∃ fault, ((ofMemory ⟨#[0xFF, 0x00, 0x00, 0x34, 0x12, 0x55], -8, .little⟩).decode
        (some (-7))).1 = .error fault ∧ fault.kind = .malformedOperand := by
  obtain ⟨hmoves, -⟩ := decode_of_copied_bytes (ofMemory ⟨#[0x66, 0x00, 0xFF, 0x80], 0, .big⟩)
    (ofMemory ⟨#[0x4E, 0x71, 0x66, 0x00, 0xFF, 0x80], 0x1000, .big⟩) 0 0x1002
  obtain ⟨-, hfails⟩ := decode_of_copied_bytes (ofMemory ⟨#[0x00, 0x00, 0x34, 0x12], 6, .little⟩)
    (ofMemory ⟨#[0xFF, 0x00, 0x00, 0x34, 0x12, 0x55], -8, .little⟩) 6 (-7)
  refine ⟨?_, ?_⟩
  · obtain ⟨moved, hdecode, rfl, -⟩ := hmoves _ rfl (by decide)
    exact ⟨_, hdecode, rfl⟩
  · exact hfails (.highByteSet 0x1234) rfl (by decide) (by decide)

end Disassembler

end Disasm68k
