import Disasm68k.Disassembler
import Disasm68k.Proofs.Conformance

/-!
# Which bytes are instructions

An instruction can be decoded exactly if its word is assigned, the addressing modes in it
exist, the bytes of data behind it are bytes, and the memory reaches to its end. The rules are
tried in order and extension words are read one by one, but neither shows in the condition.

- `exists_decodeAt_iff`: the condition in terms of the items of the word;
- `Disassembler.decode_succeeds_iff`: the four conditions one by one.
-/

namespace Disasm68k

open Encoding

variable {memory : Memory} {address word : Int}

/-- A word has a form whose slots need the items of the encoding, if the encoding has any. -/
theorem Opcode.exists_form_iff (hrange : 0 ≤ word ∧ word < 0x10000) (items : List Item) :
    (∃ form, Opcode.form word address = .ok form ∧ Slot.outline form.slots = some items) ↔
      items? word = some items := by
  constructor
  · rintro ⟨form, hform, houtline⟩
    obtain ⟨rule, hfirst, hrule⟩ := Rule.form_eq_ok_iff.mp hform
    rw [← Rule.outline_slots hrange hfirst hrule]
    exact houtline
  · intro hitems
    cases hform : Opcode.form word address with
    | error fault =>
      -- No rule takes the word, so that it is unassigned and has no items.
      have hnone := (Rule.form_eq_error hform).1
      have hassigned := (items?_eq_some_iff.mp hitems).1
      exact absurd (Rule.unassigned_of_first? hrange hnone) hassigned
    | ok form =>
      obtain ⟨rule, hfirst, hrule⟩ := Rule.form_eq_ok_iff.mp hform
      refine ⟨form, rfl, ?_⟩
      rw [Rule.outline_slots hrange hfirst hrule]
      exact hitems

/-- An instruction can be decoded exactly if the items of its word can be read. -/
theorem exists_decodeAt_iff (hword : memory.load .uint16 address = .ok word) :
    (∃ instruction, decodeAt memory address = .ok instruction) ↔
      ∃ items, items? word = some items ∧ Readable memory (address + 2) items := by
  have hrange := Memory.range_of_load_uint16 hword
  constructor
  · rintro ⟨instruction, hdecode⟩
    obtain ⟨word', form, operands, hword', hform, hreads, -⟩ := decodeAt_eq_ok_iff.mp hdecode
    obtain rfl : word = word' := Except.ok.inj (hword.symm.trans hword')
    obtain ⟨items, houtline, hreadable⟩ := Slot.exists_reads_iff.mp ⟨operands, hreads⟩
    exact ⟨items, (Opcode.exists_form_iff hrange items).mp ⟨form, hform, houtline⟩, hreadable⟩
  · rintro ⟨items, hitems, hreadable⟩
    obtain ⟨form, hform, houtline⟩ := (Opcode.exists_form_iff hrange items).mpr hitems
    obtain ⟨operands, hreads⟩ := Slot.exists_reads_iff.mpr ⟨items, houtline, hreadable⟩
    exact ⟨_, decodeAt_eq_ok_iff.mpr ⟨word, form, operands, hword, hform, hreads, rfl⟩⟩

/-- The length of an instruction is that of its word and its items. -/
theorem length_of_decodeAt (hword : memory.load .uint16 address = .ok word)
    {instruction : Instruction} (hdecode : decodeAt memory address = .ok instruction) :
    instruction.length = 2 + Item.total (items word) := by
  have hrange := Memory.range_of_load_uint16 hword
  obtain ⟨word', form, operands, hword', hform, hreads, rfl⟩ := decodeAt_eq_ok_iff.mp hdecode
  obtain rfl : word = word' := Except.ok.inj (hword.symm.trans hword')
  obtain ⟨found, houtline, -⟩ := Slot.exists_reads_iff.mp ⟨operands, hreads⟩
  have hfound := (Opcode.exists_form_iff hrange found).mp ⟨form, hform, houtline⟩
  show 2 + (Slot.extent form.slots : Int) = _
  rw [← Slot.total_of_outline houtline, (items?_eq_some_iff.mp hfound).2.2]

namespace Disassembler

/-- **A decode succeeds exactly on the encoding of an instruction.** At an address whose word
can be read, the word must be assigned and name addressing modes that exist, every extension
word that is a byte of data must be less than 256, and the memory must hold all the bytes that
the word asks for. These are then the bytes of the instruction. -/
theorem decode_succeeds_iff (d : Disassembler) (address word : Int)
    (hword : d.memory.load .uint16 address = .ok word) :
    ((∃ instruction, (d.decode (some address)).1 = .ok instruction) ↔
      ¬ Unassigned word ∧ Supported word ∧
      (∀ place ∈ Item.bytePlaces (address + 2) (items word), ∀ raw,
        d.memory.load .uint16 place = .ok raw → raw < 256) ∧
      d.memory.Holds address (2 + Item.total (items word))) ∧
    ∀ instruction, (d.decode (some address)).1 = .ok instruction →
      instruction.length = 2 + Item.total (items word) := by
  obtain ⟨hbase, hlimit⟩ : d.memory.Holds address 2 := Memory.holds_of_load hword
  have hends : d.memory.Holds address (2 + Item.total (items word)) ↔
      address + 2 + Item.total (items word) ≤ d.memory.limit := by
    unfold Memory.Holds
    omega
  rw [d.decode_fst]
  refine ⟨?_, fun instruction hdecode => length_of_decodeAt hword hdecode⟩
  show (∃ instruction, decodeAt d.memory address = .ok instruction) ↔ _
  rw [exists_decodeAt_iff hword, hends]
  constructor
  · rintro ⟨found, hfound, hreadable⟩
    obtain ⟨hassigned, hsupported, rfl⟩ := items?_eq_some_iff.mp hfound
    obtain ⟨hbytes, hend⟩ := (readable_iff (by omega) hlimit).mp hreadable
    exact ⟨hassigned, hsupported, hbytes, hend⟩
  · rintro ⟨hassigned, hsupported, hbytes, hend⟩
    refine ⟨items word, items?_eq_some_iff.mpr ⟨hassigned, hsupported, rfl⟩, ?_⟩
    exact (readable_iff (by omega) hlimit).mpr ⟨hbytes, hend⟩

/-- The bytes `00 00 00 12` are an instruction with a byte of data. -/
theorem decode_succeeds_on_immediate_byte :
    ∃ instruction, ((ofMemory ⟨#[0x00, 0x00, 0x00, 0x12], 0, .big⟩).decode (some 0)).1 =
      .ok instruction := by
  refine ((decode_succeeds_iff (ofMemory ⟨#[0x00, 0x00, 0x00, 0x12], 0, .big⟩) 0 0 rfl).1).mpr
    ⟨by decide, by decide, ?_, by decide⟩
  intro place hplace raw hraw
  obtain rfl : place = 2 := List.mem_singleton.mp hplace
  obtain rfl : 0x12 = raw := Except.ok.inj hraw
  decide

end Disassembler

end Disasm68k
