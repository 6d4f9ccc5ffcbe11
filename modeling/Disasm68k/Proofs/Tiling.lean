import Disasm68k.Disassembler
import Disasm68k.Proofs.Catalogue
import Disasm68k.Proofs.Reading

/-!
# Every byte of an instruction is accounted for

The length of an instruction, the movement of the pointer and the recorded layout are three
accounts of the same bytes. They agree: the entries of the layout tile the bytes after the
instruction word, and the pointer moves by the length.

- `Layout.Tiles`: entries that follow each other without gap or overlap;
- `Slot.tiles_entries`: the layout of slots tiles the bytes that the slots take;
- `Instruction.Spans`: the account that an instruction gives of its bytes;
- `spans_of_decodeAt`: every decoded instruction gives it.
-/

namespace Disasm68k

/-- The entries take up the bytes from offset `start` to offset `stop`: each begins where
the one before it ends, and each is two or four bytes long. -/
def Layout.Tiles : Int → List Layout.Entry → Int → Prop
  | start, [], stop => start = stop
  | start, entry :: entries, stop =>
    entry.offset? = some start ∧
      ∃ length, entry.length? = some length ∧ (length = 2 ∨ length = 4) ∧
        Tiles (start + length) entries stop

/-! ## The bytes of slots -/

namespace Slot

variable {memory : Memory} {address : Int} {operands : List Operand}

/-- The layout of slots tiles the bytes that the slots take. -/
theorem tiles_entries (offset : Int) (slots : List Slot) :
    Layout.Tiles offset (entries offset slots) (offset + extent slots) := by
  induction slots generalizing offset with
  | nil => exact (Int.add_zero offset).symm
  | cons slot slots ih =>
    cases slot with
    | fixed operand => exact ih offset
    | invalid fault => exact ih offset
    | extension key field =>
      have hrest := ih (offset + field.extent)
      have hsize := field.extent_eq_two_or_four
      refine ⟨field.offset?_entry key offset, field.extent, field.length?_entry key offset,
        by omega, ?_⟩
      rw [Int.add_assoc] at hrest
      exact hrest

theorem extent_mod_two (slots : List Slot) : extent slots % 2 = 0 := by
  induction slots with
  | nil => rfl
  | cons slot slots ih =>
    cases slot with
    | fixed operand => exact ih
    | invalid fault => exact ih
    | extension key field =>
      have hsize := field.extent_eq_two_or_four
      simp only [extent]
      omega

theorem extent_le (slots : List Slot) : extent slots ≤ 4 * slots.length := by
  induction slots with
  | nil => exact Nat.le_refl 0
  | cons slot slots ih =>
    have hsize : ∀ field : Field, field.extent ≤ 4 := fun field => by
      have := field.extent_eq_two_or_four
      omega
    cases slot with
    | extension key field =>
      have := hsize field
      simp only [extent, List.length_cons]
      omega
    | _ =>
      simp only [extent, List.length_cons]
      omega

theorem entries_eq_nil_iff (offset : Int) (slots : List Slot) :
    entries offset slots = [] ↔ extent slots = 0 := by
  induction slots generalizing offset with
  | nil => simp [entries, extent]
  | cons slot slots ih =>
    cases slot with
    | fixed operand => exact ih offset
    | invalid fault => exact ih offset
    | extension key field =>
      have hsize := field.extent_eq_two_or_four
      simp only [entries, extent, reduceCtorEq, false_iff]
      omega

/-- Slots that can be read end inside the memory if they begin there. -/
theorem end_le_limit_of_reads {slots : List Slot} (h : Reads memory address slots operands)
    (hstart : address ≤ memory.limit) : address + extent slots ≤ memory.limit := by
  induction h with
  | nil address => simpa [extent] using hstart
  | fixed rest ih => exact ih hstart
  | extension head rest ih =>
    have hend := ih (Field.holds_of_yields head).2
    simp only [extent]
    omega

end Slot

/-! ## The bytes of an instruction -/

/-- The account that an instruction found at `start` gives of its bytes. -/
structure Instruction.Spans (memory : Memory) (start : Int) (instruction : Instruction) :
    Prop where
  address_eq : instruction.address = start
  even : instruction.length % 2 = 0
  two_le : 2 ≤ instruction.length
  le_ten : instruction.length ≤ 10
  /-- All its bytes lie in memory. -/
  inside : memory.base ≤ start ∧ start + instruction.length ≤ memory.limit
  /-- The layout takes up the bytes after the instruction word. -/
  tiles : Layout.Tiles 2 instruction.layout instruction.length
  layout_eq_nil_iff : instruction.layout = [] ↔ instruction.length = 2

/-- Every decoded instruction accounts for its bytes. -/
theorem spans_of_decodeAt {memory : Memory} {address : Int} {instruction : Instruction}
    (h : decodeAt memory address = .ok instruction) : instruction.Spans memory address := by
  obtain ⟨word, form, operands, hload, hform, hreads, rfl⟩ := decodeAt_eq_ok_iff.mp h
  have hword : memory.base ≤ address ∧ address + 2 ≤ memory.limit := Memory.holds_of_load hload
  have hend := Slot.end_le_limit_of_reads hreads hword.2
  have heven := Slot.extent_mod_two form.slots
  have hlong := Slot.extent_le form.slots
  have htwo := Slot.length_le_two_of_planned (Opcode.planned_slots_of_form hform)
  refine ⟨rfl, ?_, ?_, ?_, ⟨hword.1, ?_⟩, Slot.tiles_entries 2 form.slots, ?_⟩
  · show (2 + (Slot.extent form.slots : Int)) % 2 = 0
    omega
  · show (2 : Int) ≤ 2 + Slot.extent form.slots
    omega
  · show 2 + (Slot.extent form.slots : Int) ≤ 10
    omega
  · show address + (2 + (Slot.extent form.slots : Int)) ≤ memory.limit
    omega
  · show Slot.entries 2 form.slots = [] ↔ 2 + (Slot.extent form.slots : Int) = 2
    rw [Slot.entries_eq_nil_iff]
    omega

/-! ## The pointer -/

namespace Disassembler

variable {d : Disassembler} {address : Option Int} {instruction : Instruction} {fault : Fault}

/-- A decode that finds an instruction moves the pointer by its length. -/
theorem decode_of_ok (h : decodeAt d.memory (address.getD d.pointer) = .ok instruction) :
    d.decode address =
      (.ok instruction, ⟨d.memory, address.getD d.pointer + instruction.length⟩) := by
  unfold decodeAt at h
  unfold decode
  cases hrun : Fetch.decodeNext (Cursor.start d.memory (address.getD d.pointer)) with
  | mk outcome cursor =>
    obtain rfl : outcome = .ok instruction := by simpa [hrun] using h
    obtain ⟨word, form, operands, -, -, -, rfl, rfl⟩ := decodeNext_start_eq_ok_iff.mp hrun
    simp [hrun, Cursor.position, Form.instruction]

/-- A decode that fails puts the pointer back to where the instruction was to begin. -/
theorem decode_of_error (h : decodeAt d.memory (address.getD d.pointer) = .error fault) :
    d.decode address = (.error fault, ⟨d.memory, address.getD d.pointer⟩) := by
  unfold decodeAt at h
  unfold decode
  cases hrun : Fetch.decodeNext (Cursor.start d.memory (address.getD d.pointer)) with
  | mk outcome cursor =>
    obtain rfl : outcome = .error fault := by simpa [hrun] using h
    simp [hrun]

/-- **A decode accounts for every byte.** Wherever the pointer stood and whatever memory
holds, an instruction that is found begins at the address asked for, its layout tiles its
extension words, its bytes lie in memory and the pointer moves to its end. If none is found
the pointer stands at that address, however much of the instruction had been read. -/
theorem decode_accounts_for_bytes (d : Disassembler) (address : Option Int) :
    match d.decode address with
    | (.ok instruction, after) =>
      instruction.Spans d.memory (address.getD d.pointer) ∧
        after.pointer = address.getD d.pointer + instruction.length ∧
        after.pointer = instruction.stop
    | (.error _, after) => after.pointer = address.getD d.pointer := by
  cases hat : decodeAt d.memory (address.getD d.pointer) with
  | error fault => rw [decode_of_error hat]
  | ok instruction =>
    have hspans := spans_of_decodeAt hat
    rw [decode_of_ok hat]
    refine ⟨hspans, rfl, ?_⟩
    show address.getD d.pointer + instruction.length = instruction.address + instruction.length
    rw [hspans.address_eq]

/-- The longest instructions are moves of a long number to a long address. -/
example :
    ((ofMemory ⟨#[0x23, 0xFC, 0xFF, 0xFF, 0xFF, 0xFF, 0x00, 0x01, 0x86, 0xA0], 6, .big⟩).decode
      none).2.pointer = 16 := by
  rfl

end Disassembler

end Disasm68k
