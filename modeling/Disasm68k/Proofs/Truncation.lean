import Disasm68k.Proofs.Relocation

/-!
# Instructions that are cut off

The instruction word alone says how far an instruction reaches, and reading stops at the first
byte that is missing. So if a memory ends inside an instruction, what is reported is that bytes
are missing: not a shorter instruction, and no other fault. It follows that the bytes of one
instruction never begin those of another, and that a run of bytes can be taken for a sequence of
instructions in one way at most.

- `Memory.cut`: a memory up to an address;
- `Slot.exists_fails_of_ended`: slots fail for want of bytes where a copy of their bytes ends;
- `exists_decodeAt_error_of_ended`: so does a whole instruction;
- `IsCode`: the bytes of an instruction;
- `eq_of_isCode_of_begins`, `eq_of_flatten_eq`: no code begins another one, so sequences of codes
  can be told apart;
- `Disassembler.decode_of_cut_memory`: the results together.
-/

namespace Disasm68k

/-! ## Memories that end early -/

namespace Memory

/-- The memory up to an address; what stands from there on is lost. -/
def cut (memory : Memory) (stop : Int) : Memory :=
  { memory with bytes := memory.bytes.extract 0 (stop - memory.base).toNat }

variable {memory : Memory} {address stop : Int}

theorem byte?_cut (h : address < stop) :
    (memory.cut stop).byte? address = memory.byte? address := by
  unfold byte?
  show (if address < memory.base then none
    else (memory.bytes.extract 0 (stop - memory.base).toNat)[(address - memory.base).toNat]?) = _
  by_cases hbase : address < memory.base
  · rw [if_pos hbase, if_pos hbase]
  · rw [if_neg hbase, if_neg hbase]
    grind

/-- Below the cut the bytes are those of the whole memory. -/
theorem copied_cut (memory : Memory) (address : Int) (count : Nat) :
    memory.Copied address count (memory.cut (address + count)) address :=
  ⟨rfl, fun k hk _ => byte?_cut (by omega)⟩

theorem limit_cut_le (h : memory.base ≤ stop) : (memory.cut stop).limit ≤ stop := by
  have hsize : (memory.cut stop).size ≤ (stop - memory.base).toNat := by
    show (memory.bytes.extract 0 (stop - memory.base).toNat).size ≤ _
    rw [Array.size_extract]
    omega
  show memory.base + ((memory.cut stop).size : Int) ≤ stop
  omega

end Memory

/-! ## Reading up to the end -/

variable {memory other : Memory} {address address' : Int} {k : Nat}

/-- If a copy of the bytes of slots ends before the slots do, they fail there for want of bytes:
the fields that are complete are read as in the original, and the first other one is missed. -/
theorem Slot.exists_fails_of_ended {slots : List Slot} {operands : List Operand}
    (hreads : Reads memory address slots operands) (h : memory.Copied address k other address')
    (hend : other.limit ≤ address' + k) (hk : k < extent slots) :
    ∃ fault, Fails other address' slots fault ∧ fault.kind = .bufferTooShort := by
  induction hreads generalizing address' k with
  | nil address => exact absurd hk (Nat.not_lt_zero k)
  | fixed rest ih =>
    obtain ⟨fault, hfails, hkind⟩ := ih h hend hk
    exact ⟨fault, .afterFixed hfails, hkind⟩
  | @extension address key field operand slots operands head rest ih =>
    simp only [extent] at hk
    by_cases hfield : field.extent ≤ k
    · -- The field is complete, so that a later one is cut off.
      obtain ⟨fault, hfails, hkind⟩ := ih (h.drop field.extent) (by omega) (by omega)
      exact ⟨fault, .afterField (Field.yields_of_copied h hfield head) hfails, hkind⟩
    · have hmissing : ¬ other.Holds address' field.extent := by
        rintro ⟨-, hlimit⟩
        omega
      exact ⟨_, .unreadable (Memory.load_eq_error_iff.mpr ⟨hmissing, rfl⟩), rfl⟩

/-- If a copy of the bytes of an instruction ends before the instruction does, decoding fails
there for want of bytes. -/
theorem exists_decodeAt_error_of_ended {instruction : Instruction}
    (hdecode : decodeAt memory address = .ok instruction)
    (h : memory.Copied address k other address') (hend : other.limit ≤ address' + k)
    (hk : (k : Int) < instruction.length) :
    ∃ fault, decodeAt other address' = .error fault ∧ fault.kind = .bufferTooShort := by
  obtain ⟨word, form, operands, hload, hform, hreads, rfl⟩ := decodeAt_eq_ok_iff.mp hdecode
  change (k : Int) < 2 + Slot.extent form.slots at hk
  by_cases hword : 2 ≤ k
  · obtain ⟨fault, hfails, hkind⟩ :=
      Slot.exists_fails_of_ended hreads (h.drop 2) (by omega) (by omega)
    refine ⟨fault, decodeAt_eq_error_iff.mpr (.inr ⟨word, ?_, .inr ⟨form, ?_, hfails⟩⟩), hkind⟩
    · exact Memory.load_of_copied h hword hload
    · exact Opcode.form_of_form hform address'
  · have hmissing : ¬ other.Holds address' Access.uint16.byteCount := by
      rintro ⟨-, hlimit⟩
      change address' + 2 ≤ other.limit at hlimit
      omega
    exact ⟨_, decodeAt_eq_error_iff.mpr (.inl (Memory.load_eq_error_iff.mpr ⟨hmissing, rfl⟩)), rfl⟩

/-! ## Codes -/

/-- The bytes are those of an instruction: some memory of the byte order holds them at the place
where the instruction is decoded. -/
def IsCode (order : ByteOrder) (bytes : List UInt8) : Prop :=
  ∃ memory address instruction, memory.order = order ∧
    decodeAt memory address = .ok instruction ∧
    memory.slice? address instruction.length.toNat = some bytes

variable {order : ByteOrder} {code code' : List UInt8}

theorem ne_nil_of_isCode (h : IsCode order code) : code ≠ [] := by
  obtain ⟨memory, address, instruction, -, hdecode, hslice⟩ := h
  have htwo := two_le_length_of_decodeAt hdecode
  have hlength := Memory.length_of_slice? hslice
  rintro rfl
  rw [List.length_nil] at hlength
  omega

/-- **No code begins another one.** Where the longer one stands, the shorter one would be decoded
too, but only one instruction is decoded at a place. -/
theorem eq_of_isCode_of_begins (h : IsCode order code) (h' : IsCode order code')
    (hbegins : code <+: code') : code = code' := by
  obtain ⟨memory, address, instruction, rfl, hdecode, hslice⟩ := h
  obtain ⟨other, address', instruction', horder, hdecode', hslice'⟩ := h'
  have hcopied := Memory.copied_of_begins horder.symm hslice hslice' hbegins
  have hsame : { instruction with address := address' } = instruction' :=
    Except.ok.inj ((decodeAt_of_copied hdecode hcopied).symm.trans hdecode')
  refine hbegins.eq_of_length ?_
  rw [Memory.length_of_slice? hslice, Memory.length_of_slice? hslice', ← hsame]

/-- Sequences of codes with the same bytes are the same sequence. -/
theorem eq_of_flatten_eq {codes codes' : List (List UInt8)} (h : ∀ c ∈ codes, IsCode order c)
    (h' : ∀ c ∈ codes', IsCode order c) (hflatten : codes.flatten = codes'.flatten) :
    codes = codes' := by
  induction codes generalizing codes' with
  | nil =>
    cases codes' with
    | nil => rfl
    | cons code' codes' =>
      have hnil : code' = [] := (List.append_eq_nil_iff.mp hflatten.symm).1
      exact absurd hnil (ne_nil_of_isCode (List.forall_mem_cons.mp h').1)
  | cons code codes ih =>
    rw [List.forall_mem_cons] at h
    cases codes' with
    | nil =>
      have hnil : code = [] := (List.append_eq_nil_iff.mp hflatten).1
      exact absurd hnil (ne_nil_of_isCode h.1)
    | cons code' codes' =>
      rw [List.forall_mem_cons] at h'
      rw [List.flatten_cons, List.flatten_cons] at hflatten
      -- Both first codes begin the same bytes, so that one of them begins the other.
      have hfirst : code = code' := by
        have hbegins : code <+: code' ++ codes'.flatten := ⟨_, hflatten⟩
        rcases List.prefix_or_prefix_of_prefix hbegins (List.prefix_append ..) with hle | hge
        · exact eq_of_isCode_of_begins h.1 h'.1 hle
        · exact (eq_of_isCode_of_begins h'.1 h.1 hge).symm
      subst hfirst
      rw [ih h.2 h'.2 (List.append_cancel_left hflatten)]

namespace Disassembler

/-- **Codes are free of prefixes, and a code that is cut off is noticed.** If an instruction is
decoded at an address and the memory is cut off anywhere inside it, at an odd byte or in the
middle of a long number too, then decoding there fails for want of bytes and leaves the pointer
at the address. No code of an instruction is a proper prefix of another one, and a run of bytes
is the concatenation of one sequence of codes at most. -/
theorem decode_of_cut_memory :
    (∀ (d : Disassembler) (address : Int) (instruction : Instruction) (k : Nat),
      (d.decode (some address)).1 = .ok instruction → (k : Int) < instruction.length →
      ∃ fault after, decode { d with memory := d.memory.cut (address + k) } (some address) =
          (.error fault, after) ∧
        fault.kind = .bufferTooShort ∧ after.pointer = address) ∧
    (∀ (order : ByteOrder) (code code' : List UInt8), IsCode order code → IsCode order code' →
      code <+: code' → code = code') ∧
    ∀ (order : ByteOrder) (codes codes' : List (List UInt8)), (∀ c ∈ codes, IsCode order c) →
      (∀ c ∈ codes', IsCode order c) → codes.flatten = codes'.flatten → codes = codes' := by
  refine ⟨?_, fun _ _ _ => eq_of_isCode_of_begins, fun _ _ _ => eq_of_flatten_eq⟩
  intro d address instruction k hdecode hk
  rw [d.decode_fst] at hdecode
  change decodeAt d.memory address = .ok instruction at hdecode
  have hbase := (spans_of_decodeAt hdecode).inside.1
  obtain ⟨fault, hfault, hkind⟩ := exists_decodeAt_error_of_ended hdecode
    (d.memory.copied_cut address k) (Memory.limit_cut_le (by omega)) hk
  exact ⟨fault, _, decode_of_error hfault, hkind, rfl⟩

/-- A move of a long number is cut off in the middle of that number. The first half of a long
branch is no code, and an instruction and a branch are the only ones with their bytes. -/
theorem decode_of_cut_move :
    (∃ fault after,
      decode ⟨Memory.cut ⟨#[0x23, 0xFC, 0xFF, 0xFF, 0xFF, 0xFF, 0x00, 0x01, 0x86, 0xA0], 6, .big⟩
          (6 + (5 : Nat)), 0⟩ (some 6) = (.error fault, after) ∧
        fault.kind = .bufferTooShort ∧ after.pointer = 6) ∧
      ¬ IsCode .big [0x66, 0x00] ∧ ∀ codes, (∀ c ∈ codes, IsCode .big c) →
        codes.flatten = [0x4E, 0x71, 0x66, 0x00, 0xFF, 0x80] →
        codes = [[0x4E, 0x71], [0x66, 0x00, 0xFF, 0x80]] := by
  obtain ⟨hcut, hbegins, hsplit⟩ := decode_of_cut_memory
  have hnop : IsCode .big [0x4E, 0x71] := ⟨⟨#[0x4E, 0x71], 0, .big⟩, 0, _, rfl, rfl, rfl⟩
  have hbranch : IsCode .big [0x66, 0x00, 0xFF, 0x80] :=
    ⟨⟨#[0x66, 0x00, 0xFF, 0x80], 0, .big⟩, 0, _, rfl, rfl, rfl⟩
  refine ⟨?_, ?_, ?_⟩
  · exact hcut ⟨⟨#[0x23, 0xFC, 0xFF, 0xFF, 0xFF, 0xFF, 0x00, 0x01, 0x86, 0xA0], 6, .big⟩, 0⟩ 6 _ 5
      rfl (by decide)
  · intro hhalf
    exact absurd (hbegins .big _ _ hhalf hbranch ⟨[0xFF, 0x80], rfl⟩) (by decide)
  · intro codes hcodes hflatten
    refine hsplit .big codes _ hcodes ?_ hflatten
    simp [hnop, hbranch]

end Disassembler

end Disasm68k
