import Disasm68k.Decode
import Disasm68k.Proofs.Load

/-!
# What reading an instruction amounts to

Slots are read by a step that threads a cursor through the memory. This module says once
what such a step does, so that nothing after it looks at cursors again: the operands stand
in a relation to the slots and the memory, and the cursor moves by a distance that the
slots alone decide.

- `Field.Yields`: the operand that the number at an address stands for;
- `Slot.Reads`: the operands of slots whose fields stand one after the other in memory;
- `Slot.extent`, `Slot.entries`: the bytes that slots take, and the layout they leave;
- `Slot.fetchAll_eq_ok_iff`: reading slots succeeds with what `Slot.Reads` says, and no
  other result;
- `decodeAt_eq_ok_iff`: the instruction at an address in these terms.
-/

namespace Disasm68k

/-! ## Steps in sequence -/

namespace Fetch

variable {α β : Type} {cursor cursor' : Cursor}

@[simp] theorem pure_eq_ok_iff {a b : α} :
    (pure a : Fetch α) cursor = (.ok b, cursor') ↔ a = b ∧ cursor = cursor' := by
  show (Except.ok a, cursor) = (.ok b, cursor') ↔ _
  simp

@[simp] theorem fail_ne_ok {fault : Fault} {a : α} :
    (fail fault : Fetch α) cursor ≠ (.ok a, cursor') := by
  simp [fail]

@[simp] theorem here_eq_ok_iff {found : Cursor} :
    here cursor = (.ok found, cursor') ↔ cursor = found ∧ cursor = cursor' := by
  simp [here]

@[simp] theorem ofExcept_eq_ok_iff {outcome : Except Fault α} {a : α} :
    ofExcept outcome cursor = (.ok a, cursor') ↔ outcome = .ok a ∧ cursor = cursor' := by
  simp [ofExcept]

/-- A sequence of two steps succeeds exactly when both do, one after the other. -/
theorem bind_eq_ok_iff {first : Fetch α} {next : α → Fetch β} {b : β} :
    (first >>= next) cursor = (.ok b, cursor') ↔
      ∃ a middle, first cursor = (.ok a, middle) ∧ next a middle = (.ok b, cursor') := by
  show Fetch.bind first next cursor = _ ↔ _
  unfold Fetch.bind
  cases hfirst : first cursor with
  | mk outcome middle =>
    cases outcome with
    | error fault => simp
    | ok a =>
      constructor
      · intro h
        exact ⟨a, middle, rfl, h⟩
      · rintro ⟨_, _, hsame, h⟩
        cases hsame
        exact h

theorem read_eq_ok_iff {access : Access} {value : Int} :
    read access cursor = (.ok value, cursor') ↔
      cursor.memory.load access cursor.position = .ok value ∧
        cursor' = { cursor with idx := cursor.idx + access.byteCount } := by
  unfold read
  cases cursor.memory.load access cursor.position <;> simp [eq_comm]

end Fetch

/-! ## Fields -/

namespace Field

variable {memory : Memory} {address : Int} {operand : Operand}

/-- The number of bytes of a field. -/
def extent (field : Field) : Nat :=
  field.access.byteCount

/-- The entry that a field at an offset leaves in the layout. -/
def entry (field : Field) (key : String) (offset : Int) : Layout.Entry :=
  .make key field.kind (some offset) (offset + field.extent) field.details

/-- The number in the field at `address` stands for `operand`. -/
def Yields (memory : Memory) (address : Int) (field : Field) (operand : Operand) : Prop :=
  ∃ raw, memory.load field.access address = .ok raw ∧ field.operand raw = .ok operand

/-- The stream is made of words, so a field has two or four bytes. -/
theorem extent_eq_two_or_four (field : Field) : field.extent = 2 ∨ field.extent = 4 := by
  cases field with
  | immediate size => cases size <;> decide
  | absLong => exact .inr rfl
  | _ => exact .inl rfl

/-- No field notes its own offset or length, so an entry tells the place it was made for. -/
@[simp] theorem offset?_entry (field : Field) (key : String) (offset : Int) :
    (field.entry key offset).offset? = some offset := by
  cases field <;> rfl

@[simp] theorem length?_entry (field : Field) (key : String) (offset : Int) :
    (field.entry key offset).length? = some (field.extent : Int) := by
  have hlen : offset + field.extent - offset = field.extent := by omega
  cases field <;> exact congrArg some hlen

theorem holds_of_yields {field : Field} (h : field.Yields memory address operand) :
    memory.Holds address field.extent := by
  obtain ⟨raw, hload, -⟩ := h
  exact Memory.holds_of_load hload

section Outcomes

variable {α : Type} {field : Field} {key : String} {interpret : Int → Except Fault α}
  {cursor : Cursor} {fault : Fault} {raw : Int}

/-- A field that the memory does not hold leaves the cursor where it is. -/
theorem fetchAs_of_unreadable
    (h : cursor.memory.load field.access cursor.position = .error fault) :
    field.fetchAs key interpret cursor = (.error fault, cursor) := by
  simp only [fetchAs, bind, Fetch.bind, Fetch.here, Fetch.read, h]

/-- A number that cannot be interpreted has been read, but nothing is noted of it. -/
theorem fetchAs_of_refused (hload : cursor.memory.load field.access cursor.position = .ok raw)
    (hraw : interpret raw = .error fault) :
    field.fetchAs key interpret cursor =
      (.error fault, { cursor with idx := cursor.idx + field.extent }) := by
  simp only [fetchAs, bind, Fetch.bind, Fetch.here, Fetch.read, hload, Fetch.ofExcept, hraw, extent]

/-- A number that can be interpreted has been read and is noted. -/
theorem fetchAs_of_ok {value : α}
    (hload : cursor.memory.load field.access cursor.position = .ok raw)
    (hraw : interpret raw = .ok value) :
    field.fetchAs key interpret cursor =
      (.ok value, { cursor with
        idx := cursor.idx + field.extent
        layout := cursor.layout ++ [field.entry key cursor.idx] }) := by
  simp only [fetchAs, bind, Fetch.bind, Fetch.here, Fetch.read, hload, Fetch.ofExcept, hraw,
    Fetch.record]
  rfl

end Outcomes

/-- Reading a field moves the cursor past it and notes its place. -/
theorem fetch_eq_ok_iff {field : Field} {key : String} {cursor cursor' : Cursor} :
    field.fetch key cursor = (.ok operand, cursor') ↔
      field.Yields cursor.memory cursor.position operand ∧
        cursor' = { cursor with
          idx := cursor.idx + field.extent
          layout := cursor.layout ++ [field.entry key cursor.idx] } := by
  simp only [fetch, fetchAs, Fetch.bind_eq_ok_iff, Fetch.here_eq_ok_iff, Fetch.read_eq_ok_iff,
    Fetch.ofExcept_eq_ok_iff, Fetch.pure_eq_ok_iff, Fetch.record]
  constructor
  · rintro ⟨_, _, ⟨rfl, rfl⟩, raw, _, ⟨hload, rfl⟩, _, _, ⟨hop, rfl⟩, _, _, hrec, rfl, rfl⟩
    cases hrec
    exact ⟨⟨raw, hload, hop⟩, rfl⟩
  · rintro ⟨⟨raw, hload, hop⟩, rfl⟩
    exact ⟨_, _, ⟨rfl, rfl⟩, raw, _, ⟨hload, rfl⟩, _, _, ⟨hop, rfl⟩, _, _, rfl, rfl, rfl⟩

end Field

/-! ## Slots -/

namespace Slot

variable {memory : Memory} {address : Int} {slots : List Slot} {operands : List Operand}

/-- The operands that slots have when the first field stands at `address` and each further
field right after the one before it. -/
inductive Reads (memory : Memory) : Int → List Slot → List Operand → Prop where
  | nil (address : Int) : Reads memory address [] []
  | fixed {address : Int} {operand : Operand} {slots : List Slot} {operands : List Operand}
      (rest : Reads memory address slots operands) :
      Reads memory address (.fixed operand :: slots) (operand :: operands)
  | extension {address : Int} {key : String} {field : Field} {operand : Operand}
      {slots : List Slot} {operands : List Operand}
      (head : field.Yields memory address operand)
      (rest : Reads memory (address + field.extent) slots operands) :
      Reads memory address (.extension key field :: slots) (operand :: operands)

/-- The number of bytes that the fields of slots take. -/
def extent : List Slot → Nat
  | [] => 0
  | .fixed _ :: slots => extent slots
  | .extension _ field :: slots => field.extent + extent slots
  | .invalid _ :: slots => extent slots

/-- The layout of slots whose first field stands at an offset. -/
def entries : Int → List Slot → List Layout.Entry
  | _, [] => []
  | offset, .fixed _ :: slots => entries offset slots
  | offset, .extension key field :: slots =>
    field.entry key offset :: entries (offset + field.extent) slots
  | offset, .invalid _ :: slots => entries offset slots

end Slot

/-- The cursor behind the fields of slots. -/
def Cursor.after (cursor : Cursor) (slots : List Slot) : Cursor :=
  { cursor with
    idx := cursor.idx + Slot.extent slots
    layout := cursor.layout ++ Slot.entries cursor.idx slots }

namespace Slot

variable {memory : Memory} {address : Int} {slots : List Slot} {operands : List Operand}

/-- Reading slots succeeds exactly with the operands that they have in memory. -/
theorem fetchAll_eq_ok_iff {cursor cursor' : Cursor} :
    fetchAll slots cursor = (.ok operands, cursor') ↔
      Reads cursor.memory cursor.position slots operands ∧ cursor' = cursor.after slots := by
  induction slots generalizing cursor cursor' operands with
  | nil =>
    simp only [fetchAll, Fetch.pure_eq_ok_iff]
    constructor
    · rintro ⟨rfl, rfl⟩
      exact ⟨.nil _, by simp [Cursor.after, extent, entries]⟩
    · rintro ⟨hreads, rfl⟩
      cases hreads
      exact ⟨rfl, by simp [Cursor.after, extent, entries]⟩
  | cons slot slots ih =>
    simp only [fetchAll, Fetch.bind_eq_ok_iff, Fetch.pure_eq_ok_iff, ih]
    cases slot with
    | fixed operand =>
      simp only [fetch, Fetch.pure_eq_ok_iff]
      constructor
      · rintro ⟨_, _, ⟨rfl, rfl⟩, _, _, ⟨hreads, rfl⟩, rfl, rfl⟩
        exact ⟨.fixed hreads, rfl⟩
      · rintro ⟨hreads, rfl⟩
        cases hreads with
        | fixed hrest => exact ⟨_, _, ⟨rfl, rfl⟩, _, _, ⟨hrest, rfl⟩, rfl, rfl⟩
    | extension key field =>
      simp only [fetch, Field.fetch_eq_ok_iff]
      -- the cursor behind the first field is where the others begin
      have hpos : cursor.position + field.extent = cursor.pc + (cursor.idx + field.extent) :=
        Int.add_assoc ..
      have hafter : Cursor.after { cursor with
          idx := cursor.idx + field.extent
          layout := cursor.layout ++ [field.entry key cursor.idx] } slots =
          cursor.after (.extension key field :: slots) := by
        simp [Cursor.after, extent, entries, Int.add_assoc]
      constructor
      · rintro ⟨_, _, ⟨hhead, rfl⟩, _, _, ⟨hreads, rfl⟩, rfl, rfl⟩
        exact ⟨.extension hhead (hpos ▸ hreads), hafter⟩
      · rintro ⟨hreads, rfl⟩
        cases hreads with
        | extension hhead hrest =>
          rw [hpos] at hrest
          exact ⟨_, _, ⟨hhead, rfl⟩, _, _, ⟨hrest, rfl⟩, rfl, hafter⟩
    | invalid fault =>
      simp only [fetch, Fetch.fail_ne_ok, false_and, exists_false, false_iff, not_and]
      intro hreads
      cases hreads

end Slot

/-! ## Instructions -/

namespace Fetch

variable {cursor cursor' : Cursor} {word : Int} {instruction : Instruction}

theorem decodeWord_eq_ok_iff :
    decodeWord word cursor = (.ok instruction, cursor') ↔
      ∃ form operands, Opcode.form word cursor.pc = .ok form ∧
        Slot.Reads cursor.memory cursor.position form.slots operands ∧
        cursor' = cursor.after form.slots ∧
        instruction = finish word form operands cursor' := by
  simp only [decodeWord_eq, bind_eq_ok_iff, here_eq_ok_iff, ofExcept_eq_ok_iff, pure_eq_ok_iff,
    Slot.fetchAll_eq_ok_iff]
  constructor
  · rintro ⟨_, _, ⟨rfl, rfl⟩, form, _, ⟨hform, rfl⟩, operands, _, ⟨hreads, rfl⟩, _, _,
      ⟨rfl, rfl⟩, rfl, rfl⟩
    exact ⟨form, operands, hform, hreads, rfl, rfl⟩
  · rintro ⟨form, operands, hform, hreads, rfl, rfl⟩
    exact ⟨_, _, ⟨rfl, rfl⟩, form, _, ⟨hform, rfl⟩, operands, _, ⟨hreads, rfl⟩, _, _,
      ⟨rfl, rfl⟩, rfl, rfl⟩

end Fetch

/-- The instruction of a form whose word stands at an address. -/
def Form.instruction (form : Form) (address word : Int) (operands : List Operand) :
    Instruction where
  address := address
  opcode := word
  mnemonic := form.mnemonic
  size := form.size
  operands := form.arrange operands
  length := 2 + Slot.extent form.slots
  layout := Slot.entries 2 form.slots

/-- The instruction at an address comes from the word there, the form of that word and the
operands that the slots of the form have in the bytes after the word. -/
theorem decodeNext_start_eq_ok_iff {memory : Memory} {address : Int} {instruction : Instruction}
    {cursor : Cursor} :
    Fetch.decodeNext (Cursor.start memory address) = (.ok instruction, cursor) ↔
      ∃ word form operands, memory.load .uint16 address = .ok word ∧
        Opcode.form word address = .ok form ∧
        Slot.Reads memory (address + 2) form.slots operands ∧
        instruction = form.instruction address word operands ∧
        cursor = ⟨memory, address, 2 + Slot.extent form.slots, Slot.entries 2 form.slots⟩ := by
  have hstart : (Cursor.start memory address).position = address := Int.add_zero _
  simp only [Fetch.decodeNext, Fetch.bind_eq_ok_iff, Fetch.read_eq_ok_iff,
    Fetch.decodeWord_eq_ok_iff, hstart]
  constructor
  · rintro ⟨word, _, ⟨hload, rfl⟩, form, operands, hform, hreads, rfl, rfl⟩
    exact ⟨word, form, operands, hload, hform, hreads, rfl, rfl⟩
  · rintro ⟨word, form, operands, hload, hform, hreads, rfl, rfl⟩
    exact ⟨word, _, ⟨hload, rfl⟩, form, operands, hform, hreads, rfl, rfl⟩

theorem decodeAt_eq_ok_iff {memory : Memory} {address : Int} {instruction : Instruction} :
    decodeAt memory address = .ok instruction ↔
      ∃ word form operands, memory.load .uint16 address = .ok word ∧
        Opcode.form word address = .ok form ∧
        Slot.Reads memory (address + 2) form.slots operands ∧
        instruction = form.instruction address word operands := by
  constructor
  · intro h
    obtain ⟨word, form, operands, hload, hform, hreads, hinstr, -⟩ :=
      decodeNext_start_eq_ok_iff.mp (Prod.ext h rfl)
    exact ⟨word, form, operands, hload, hform, hreads, hinstr⟩
  · rintro ⟨word, form, operands, hload, hform, hreads, hinstr⟩
    exact congrArg Prod.fst (decodeNext_start_eq_ok_iff.mpr
      ⟨word, form, operands, hload, hform, hreads, hinstr, rfl⟩)

end Disasm68k
