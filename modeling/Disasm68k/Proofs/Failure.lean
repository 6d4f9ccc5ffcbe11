import Disasm68k.Proofs.Reading

/-!
# How reading an instruction fails

A step that reads slots stops at the first of them that it cannot read. This module says what
it met there, in the same terms as `Slot.Reads` says what a step finds that does not stop, so
that failures too can be followed from one memory to another.

- `Fault.Kind`, `Fault.kind`: the kinds of faults, without the numbers in their messages;
- `Slot.Fails`: the fault that slots have when the first field stands at an address;
- `Slot.fetchAll_eq_error_iff`: reading slots fails with what `Slot.Fails` says, and with no
  other fault;
- `Slot.fails_append_invalid_iff`: when the fault of an invalid slot is reached;
- `decodeAt_eq_error_iff`: the fault of the instruction at an address in these terms.
-/

namespace Disasm68k

/-! ## Kinds of faults -/

/-- The kinds of faults that a client can tell apart without reading messages. -/
inductive Fault.Kind where
  | unknownInstruction
  | unsupportedMode
  | malformedOperand
  | unsupportedImmediateSize
  | missingOperandSize
  /-- Bytes are asked for that the memory, or the range listed, does not hold. -/
  | bufferTooShort
  | undefinedForm
  /-- The message of the fault cannot be written. -/
  | unwritable
deriving DecidableEq, Repr

/-- The kind of a fault. A byte move to an address register is no instruction. -/
def Fault.kind : Fault → Fault.Kind
  | unknownInstruction _ _ => .unknownInstruction
  | byteAddressMove _ => .unknownInstruction
  | unsupportedMode _ _ => .unsupportedMode
  | highByteSet _ => .malformedOperand
  | unsupportedImmediateSize _ => .unsupportedImmediateSize
  | missingOperandSize => .missingOperandSize
  | outsideMemory _ _ _ _ => .bufferTooShort
  | pastRange _ _ _ => .bufferTooShort
  | undefinedForm _ => .undefinedForm
  | unwritable => .unwritable

/-- A load fails for want of bytes only. -/
theorem Memory.load_eq_error_iff {memory : Memory} {access : Access} {address : Int}
    {fault : Fault} :
    memory.load access address = .error fault ↔
      ¬ memory.Holds address access.byteCount ∧ fault = memory.accessFault access address := by
  rw [← exists_load_iff]
  unfold load
  cases memory.slice? address access.byteCount with
  | none => simp [eq_comm]
  | some bytes => simp

theorem Memory.kind_accessFault (memory : Memory) (access : Access) (address : Int) :
    (memory.accessFault access address).kind = .bufferTooShort :=
  rfl

/-! ## Steps in sequence -/

namespace Fetch

variable {α β : Type} {cursor : Cursor} {fault : Fault}

@[simp] theorem pure_ne_error {a : α} : ((pure a : Fetch α) cursor).1 ≠ .error fault := by
  rintro ⟨⟩

@[simp] theorem here_ne_error : (here cursor).1 ≠ .error fault := by
  rintro ⟨⟩

@[simp] theorem record_ne_error {key kind : String} {start : Option Int}
    {details : List (String × Layout.Detail)} :
    (record key kind start details cursor).1 ≠ .error fault := by
  rintro ⟨⟩

@[simp] theorem fail_eq_error_iff {other : Fault} :
    ((fail other : Fetch α) cursor).1 = .error fault ↔ other = fault := by
  simp [fail]

@[simp] theorem ofExcept_eq_error_iff {outcome : Except Fault α} :
    (ofExcept outcome cursor).1 = .error fault ↔ outcome = .error fault :=
  Iff.rfl

theorem read_eq_error_iff {access : Access} :
    (read access cursor).1 = .error fault ↔
      cursor.memory.load access cursor.position = .error fault := by
  unfold read
  cases cursor.memory.load access cursor.position <;> simp

/-- A sequence of two steps fails where one of them does: in the first, or in the second after
the first has succeeded. -/
theorem bind_eq_error_iff {first : Fetch α} {next : α → Fetch β} :
    ((first >>= next) cursor).1 = .error fault ↔
      (first cursor).1 = .error fault ∨
        ∃ a middle, first cursor = (.ok a, middle) ∧ (next a middle).1 = .error fault := by
  show (Fetch.bind first next cursor).1 = _ ↔ _
  unfold Fetch.bind
  cases hfirst : first cursor with
  | mk outcome middle =>
    cases outcome with
    | error other => simp
    | ok a =>
      constructor
      · intro h
        exact .inr ⟨a, middle, rfl, h⟩
      · rintro (hnone | ⟨_, _, hsame, h⟩)
        · cases hnone
        · cases hsame
          exact h

end Fetch

/-! ## Fields and slots -/

/-- A field cannot be read where the memory does not hold it, or where it holds a number that
stands for no operand. -/
theorem Field.fetch_eq_error_iff {field : Field} {key : String} {cursor : Cursor}
    {fault : Fault} :
    (field.fetch key cursor).1 = .error fault ↔
      cursor.memory.load field.access cursor.position = .error fault ∨
        ∃ raw, cursor.memory.load field.access cursor.position = .ok raw ∧
          field.operand raw = .error fault := by
  simp only [fetch, fetchAs, Fetch.bind_eq_error_iff, Fetch.here_ne_error, Fetch.here_eq_ok_iff,
    Fetch.read_eq_error_iff, Fetch.read_eq_ok_iff, Fetch.ofExcept_eq_error_iff,
    Fetch.record_ne_error, Fetch.pure_ne_error, false_or, or_false, and_false, exists_false]
  constructor
  · rintro ⟨_, _, ⟨rfl, rfl⟩, hload | ⟨raw, _, ⟨hload, rfl⟩, hraw⟩⟩
    · exact .inl hload
    · exact .inr ⟨raw, hload, hraw⟩
  · rintro (hload | ⟨raw, hload, hraw⟩)
    · exact ⟨_, _, ⟨rfl, rfl⟩, .inl hload⟩
    · exact ⟨_, _, ⟨rfl, rfl⟩, .inr ⟨raw, _, ⟨hload, rfl⟩, hraw⟩⟩

namespace Slot

/-- The fault of slots when the first field stands at `address` and each further field right
after the one before it. -/
inductive Fails (memory : Memory) : Int → List Slot → Fault → Prop where
  /-- There is no such operand. -/
  | invalid {address : Int} {fault : Fault} {slots : List Slot} :
      Fails memory address (.invalid fault :: slots) fault
  /-- The memory does not hold the field. -/
  | unreadable {address : Int} {key : String} {field : Field} {slots : List Slot} {fault : Fault}
      (load : memory.load field.access address = .error fault) :
      Fails memory address (.extension key field :: slots) fault
  /-- The number in the field stands for no operand. -/
  | refused {address raw : Int} {key : String} {field : Field} {slots : List Slot} {fault : Fault}
      (load : memory.load field.access address = .ok raw)
      (refuses : field.operand raw = .error fault) :
      Fails memory address (.extension key field :: slots) fault
  | afterFixed {address : Int} {operand : Operand} {slots : List Slot} {fault : Fault}
      (rest : Fails memory address slots fault) :
      Fails memory address (.fixed operand :: slots) fault
  | afterField {address : Int} {key : String} {field : Field} {operand : Operand}
      {slots : List Slot} {fault : Fault} (head : field.Yields memory address operand)
      (rest : Fails memory (address + field.extent) slots fault) :
      Fails memory address (.extension key field :: slots) fault

/-- Reading slots fails exactly with the fault that they have in memory. -/
theorem fetchAll_eq_error_iff {slots : List Slot} {cursor : Cursor} {fault : Fault} :
    (fetchAll slots cursor).1 = .error fault ↔
      Fails cursor.memory cursor.position slots fault := by
  induction slots generalizing cursor with
  | nil =>
    simp only [fetchAll, Fetch.pure_ne_error, false_iff]
    rintro ⟨⟩
  | cons slot slots ih =>
    simp only [fetchAll, Fetch.bind_eq_error_iff, Fetch.pure_ne_error, and_false, exists_false,
      or_false, ih]
    cases slot with
    | fixed operand =>
      simp only [fetch, Fetch.pure_ne_error, Fetch.pure_eq_ok_iff, false_or]
      constructor
      · rintro ⟨_, _, ⟨rfl, rfl⟩, hrest⟩
        exact .afterFixed hrest
      · intro hfails
        cases hfails with
        | afterFixed hrest => exact ⟨_, _, ⟨rfl, rfl⟩, hrest⟩
    | extension key field =>
      simp only [fetch, Field.fetch_eq_error_iff, Field.fetch_eq_ok_iff]
      -- the cursor behind the first field is where the others begin
      have hpos : cursor.position + field.extent = cursor.pc + (cursor.idx + field.extent) :=
        Int.add_assoc ..
      constructor
      · rintro ((hload | ⟨raw, hload, hraw⟩) | ⟨_, _, ⟨hhead, rfl⟩, hrest⟩)
        · exact .unreadable hload
        · exact .refused hload hraw
        · exact .afterField hhead (hpos ▸ hrest)
      · intro hfails
        cases hfails with
        | unreadable hload => exact .inl (.inl hload)
        | refused hload hraw => exact .inl (.inr ⟨_, hload, hraw⟩)
        | afterField hhead hrest =>
          rw [hpos] at hrest
          exact .inr ⟨_, _, ⟨hhead, rfl⟩, hrest⟩
    | invalid other =>
      simp only [fetch, Fetch.fail_eq_error_iff, Fetch.fail_ne_ok, false_and, exists_false,
        or_false]
      constructor
      · rintro rfl
        exact .invalid
      · intro hfails
        cases hfails with
        | invalid => rfl

/-- An invalid slot is reported if all slots before it can be read. -/
theorem fails_append_invalid_iff {memory : Memory} {address : Int} {slots : List Slot}
    {other fault : Fault} :
    Fails memory address (slots ++ [.invalid other]) fault ↔
      Fails memory address slots fault ∨
        (∃ operands, Reads memory address slots operands) ∧ fault = other := by
  induction slots generalizing address with
  | nil =>
    constructor
    · intro hfails
      cases hfails with
      | invalid => exact .inr ⟨⟨[], .nil address⟩, rfl⟩
    · rintro (hnone | ⟨-, rfl⟩)
      · cases hnone
      · exact .invalid
  | cons slot slots ih =>
    cases slot with
    | fixed operand =>
      constructor
      · intro hfails
        cases hfails with
        | afterFixed hrest =>
          rcases ih.mp hrest with hrest | ⟨⟨operands, hreads⟩, rfl⟩
          · exact .inl (.afterFixed hrest)
          · exact .inr ⟨⟨_, .fixed hreads⟩, rfl⟩
      · rintro (hfails | ⟨⟨_, hreads⟩, rfl⟩)
        · cases hfails with
          | afterFixed hrest => exact .afterFixed (ih.mpr (.inl hrest))
        · cases hreads with
          | fixed hrest => exact .afterFixed (ih.mpr (.inr ⟨⟨_, hrest⟩, rfl⟩))
    | extension key field =>
      constructor
      · intro hfails
        cases hfails with
        | unreadable hload => exact .inl (.unreadable hload)
        | refused hload hraw => exact .inl (.refused hload hraw)
        | afterField hhead hrest =>
          rcases ih.mp hrest with hrest | ⟨⟨operands, hreads⟩, rfl⟩
          · exact .inl (.afterField hhead hrest)
          · exact .inr ⟨⟨_, .extension hhead hreads⟩, rfl⟩
      · rintro (hfails | ⟨⟨_, hreads⟩, rfl⟩)
        · cases hfails with
          | unreadable hload => exact .unreadable hload
          | refused hload hraw => exact .refused hload hraw
          | afterField hhead hrest => exact .afterField hhead (ih.mpr (.inl hrest))
        · cases hreads with
          | extension hhead hrest => exact .afterField hhead (ih.mpr (.inr ⟨⟨_, hrest⟩, rfl⟩))
    | invalid earlier =>
      constructor
      · intro hfails
        cases hfails with
        | invalid => exact .inl .invalid
      · rintro (hfails | ⟨⟨_, hreads⟩, -⟩)
        · cases hfails with
          | invalid => exact .invalid
        · cases hreads

end Slot

/-! ## Instructions -/

/-- There is no instruction at an address if the word there cannot be read, if no form has that
word, or if the slots of its form cannot be read in the bytes after the word. -/
theorem decodeAt_eq_error_iff {memory : Memory} {address : Int} {fault : Fault} :
    decodeAt memory address = .error fault ↔
      memory.load .uint16 address = .error fault ∨
        ∃ word, memory.load .uint16 address = .ok word ∧
          (Opcode.form word address = .error fault ∨
            ∃ form, Opcode.form word address = .ok form ∧
              Slot.Fails memory (address + 2) form.slots fault) := by
  have hstart : (Cursor.start memory address).position = address := Int.add_zero _
  simp only [decodeAt, Fetch.decodeNext, Fetch.decodeWord_eq, Fetch.bind_eq_error_iff,
    Fetch.read_eq_error_iff, Fetch.read_eq_ok_iff, Fetch.here_ne_error, Fetch.here_eq_ok_iff,
    Fetch.ofExcept_eq_error_iff, Fetch.ofExcept_eq_ok_iff, Fetch.pure_ne_error,
    Slot.fetchAll_eq_error_iff, and_false, exists_false, or_false, false_or, hstart]
  constructor
  · rintro (hload | ⟨word, _, ⟨hload, rfl⟩, _, _, ⟨rfl, rfl⟩, hform | ⟨form, _, ⟨hform, rfl⟩,
      hfails⟩⟩)
    · exact .inl hload
    · exact .inr ⟨word, hload, .inl hform⟩
    · exact .inr ⟨word, hload, .inr ⟨form, hform, hfails⟩⟩
  · rintro (hload | ⟨word, hload, hform | ⟨form, hform, hfails⟩⟩)
    · exact .inl hload
    · exact .inr ⟨word, _, ⟨hload, rfl⟩, _, _, ⟨rfl, rfl⟩, .inl hform⟩
    · exact .inr ⟨word, _, ⟨hload, rfl⟩, _, _, ⟨rfl, rfl⟩, .inr ⟨form, _, ⟨hform, rfl⟩, hfails⟩⟩

/-- Where the word can be read, its form and the slots of the form are all that matters. -/
theorem decodeAt_eq_error_iff_of_load {memory : Memory} {address word : Int} {fault : Fault}
    (hword : memory.load .uint16 address = .ok word) :
    decodeAt memory address = .error fault ↔
      Opcode.form word address = .error fault ∨
        ∃ form, Opcode.form word address = .ok form ∧
          Slot.Fails memory (address + 2) form.slots fault := by
  rw [decodeAt_eq_error_iff, hword]
  constructor
  · rintro (hnone | ⟨_, hsame, hfails⟩)
    · cases hnone
    · cases hsame
      exact hfails
  · intro hfails
    exact .inr ⟨word, rfl, hfails⟩

end Disasm68k
