import Disasm68k.Proofs.Relocation

/-!
# The bits that count

An instruction keeps all of the words it was decoded from, up to a few bits that mean nothing:
the upper five bits of the word that holds an index register, and all but the lower five bits of
the word that holds a bit number. So the instruction can be told from its words and, these bits
apart, the words from the instruction.

- `Memory.copied_of_load_eq`: numbers that are equal are made of the same bytes;
- `Layout.significant`: how many low bits of the word at an offset count;
- `Memory.WordsAgree`: words of two memories that agree in their low bits;
- `Field.yields_iff_wordsAgree`, `Slot.reads_iff_wordsAgree`: fields and slots have the same
  operands in two memories exactly if their words agree in the bits that count;
- `Instruction.Agrees`: the same for all words of an instruction;
- `Disassembler.decode_keeps_significant_bits`: an instruction is decoded from two memories
  exactly if its words agree in them.
-/

namespace Disasm68k

/-! ## Numbers and their bytes -/

theorem ByteOrder.assembleLow_inj {bytes bytes' : List UInt8}
    (hlength : bytes.length = bytes'.length) (h : assembleLow bytes = assembleLow bytes') :
    bytes = bytes' := by
  induction bytes generalizing bytes' with
  | nil => exact (List.eq_nil_of_length_eq_zero hlength.symm).symm
  | cons b rest ih =>
    obtain ⟨b', rest', rfl⟩ := List.exists_cons_of_length_eq_add_one hlength.symm
    have hb : b.toNat < 256 := b.toNat_lt
    have hb' : b'.toNat < 256 := b'.toNat_lt
    simp only [assembleLow] at h
    have hbyte : b = b' := UInt8.toNat_inj.mp (by omega)
    have hrest : rest = rest' := ih (by simpa using hlength) (by omega)
    rw [hbyte, hrest]

theorem ByteOrder.assemble_inj (order : ByteOrder) {bytes bytes' : List UInt8}
    (hlength : bytes.length = bytes'.length) (h : order.assemble bytes = order.assemble bytes') :
    bytes = bytes' := by
  cases order with
  | little => exact assembleLow_inj hlength h
  | big =>
    have hreverse : bytes.reverse = bytes'.reverse :=
      assembleLow_inj (by simpa using hlength) h
    exact List.reverse_inj.mp hreverse

theorem Access.interpret_inj (access : Access) {raw raw' : Nat}
    (hraw : raw < Nat.pow 256 access.byteCount) (hraw' : raw' < Nat.pow 256 access.byteCount)
    (h : access.interpret raw = access.interpret raw') : raw = raw' := by
  have hspan : ∀ n : Nat, n < Nat.pow 256 access.byteCount → (n : Int) < access.span := by
    intro n hn
    obtain ⟨size, signed⟩ := access
    cases size <;> simp [byteCount, Size.byteCount] at hn <;> simp only [span] <;> omega
  have hlt := hspan raw hraw
  have hlt' := hspan raw' hraw'
  -- Numbers that stand for a negative value are less than it by the span, all others are it.
  unfold interpret at h
  by_cases hnegative : access.signed ∧ access.span ≤ 2 * raw <;>
    by_cases hnegative' : access.signed ∧ access.span ≤ 2 * raw' <;>
    simp only [hnegative, hnegative', and_self, if_true, if_false] at h <;> omega

namespace Memory

variable {memory other : Memory} {address address' : Int}

/-- Numbers that are equal are made of the same bytes. -/
theorem copied_of_load_eq {access : Access} {value : Int} (horder : memory.order = other.order)
    (h : memory.load access address = .ok value) (h' : other.load access address' = .ok value) :
    memory.Copied address access.byteCount other address' := by
  unfold load at h h'
  cases hslice : memory.slice? address access.byteCount with
  | none => simp [hslice] at h
  | some bytes =>
    cases hslice' : other.slice? address' access.byteCount with
    | none => simp [hslice'] at h'
    | some bytes' =>
      simp only [hslice, hslice', Except.ok.injEq] at h h'
      have hlength := length_of_slice? hslice
      have hlength' := length_of_slice? hslice'
      have hraw := memory.order.assemble_lt bytes
      have hraw' := other.order.assemble_lt bytes'
      rw [hlength] at hraw
      rw [hlength'] at hraw'
      have hnumber := access.interpret_inj hraw hraw' (h.trans h'.symm)
      rw [← horder] at hnumber
      obtain rfl := memory.order.assemble_inj (hlength.trans hlength'.symm) hnumber
      exact copied_of_begins horder hslice hslice' (List.prefix_refl bytes)

/-! ## Words that agree -/

/-- Both memories hold a word at the address, and the two words agree in their low `count`
bits. -/
def WordsAgree (memory other : Memory) (address : Int) (count : Nat) : Prop :=
  ∃ word word', memory.load .uint16 address = .ok word ∧ other.load .uint16 address = .ok word' ∧
    bits word 0 count = bits word' 0 count

theorem bits_eq_of_load {word : Int} (h : memory.load .uint16 address = .ok word) :
    bits word 0 16 = word := by
  obtain ⟨hnonneg, hlt⟩ := range_of_load_uint16 h
  show word / 1 % 0x10000 = word
  omega

/-- Words agree in all their bits exactly if they have the same bytes. -/
theorem wordsAgree_iff_copied (horder : memory.order = other.order)
    (hholds : memory.Holds address 2) :
    memory.WordsAgree other address 16 ↔ memory.Copied address 2 other address := by
  constructor
  · rintro ⟨word, word', hload, hload', hbits⟩
    rw [bits_eq_of_load hload, bits_eq_of_load hload'] at hbits
    subst hbits
    exact copied_of_load_eq horder hload hload'
  · intro hcopied
    obtain ⟨word, hload⟩ : ∃ word, memory.load .uint16 address = .ok word :=
      exists_load_iff.mpr hholds
    exact ⟨word, word, hload, load_of_copied hcopied (Nat.le_refl 2) hload, rfl⟩

/-- Two runs of bytes that follow each other are copied one by one. -/
theorem copied_add_iff {n k : Nat} :
    memory.Copied address (n + k) other address' ↔
      memory.Copied address n other address' ∧
        memory.Copied (address + n) k other (address' + n) := by
  constructor
  · intro h
    have hrest := h.drop n
    rw [Nat.add_sub_cancel_left] at hrest
    exact ⟨h.mono (Nat.le_add_right n k), hrest⟩
  · rintro ⟨hfirst, hrest⟩
    refine ⟨hfirst.order_eq, ?_⟩
    intro j hj
    by_cases hlow : j < n
    · exact hfirst.byte_eq j hlow
    · have hbyte := hrest.byte_eq (j - n) (by omega)
      have hplace : ∀ a : Int, a + n + ((j - n : Nat) : Int) = a + j := fun a => by omega
      rw [hplace, hplace] at hbyte
      exact hbyte

end Memory

/-! ## Significant bits -/

/-- The number of low bits that count in the first word of a field of the kind. -/
def Layout.Entry.significant (entry : Layout.Entry) : Nat :=
  if entry.kind = "d8_an_xn" ∨ entry.kind = "d8_pc_xn" then 11
  else if entry.kind = "bitnum" then 5
  else 16

/-- The number of low bits that count in the word at an offset of an instruction: all sixteen,
unless an index register or a bit number stands there. -/
def Layout.significant (layout : List Layout.Entry) (offset : Int) : Nat :=
  match layout.find? fun entry => entry.offset? = some offset with
  | some entry => entry.significant
  | none => 16

namespace Field

/-- The number of low bits that count in the first word of the field. -/
def significant : Field → Nat
  | addrIndex _ => 11
  | pcIndex => 11
  | bitNumber => 5
  | _ => 16

@[simp] theorem significant_entry (field : Field) (key : String) (offset : Int) :
    (field.entry key offset).significant = field.significant := by
  cases field with
  | immediate size => cases size <;> rfl
  | _ => rfl

/-- The displacement and the register of an index are the low eleven bits. -/
theorem index_eq_iff {raw raw' : Int} :
    indexDisp raw = indexDisp raw' ∧ indexReg raw = indexReg raw' ↔
      bits raw 0 11 = bits raw' 0 11 := by
  show raw / 1 % 256 % 128 - raw / 1 % 256 / 128 % 2 * 128 =
      raw' / 1 % 256 % 128 - raw' / 1 % 256 / 128 % 2 * 128 ∧
    raw / 256 % 8 = raw' / 256 % 8 ↔ raw / 1 % 2048 = raw' / 1 % 2048
  omega

/-- A field with bits that do not count is an unsigned word, and its operand is a matter of the
other bits. -/
theorem operand_eq_iff_of_partial {field : Field} (h : field.significant ≠ 16) :
    field.access = .uint16 ∧ ∀ raw raw', field.operand raw = field.operand raw' ↔
      bits raw 0 field.significant = bits raw' 0 field.significant := by
  cases field with
  | addrIndex reg =>
    refine ⟨rfl, ?_⟩
    intro raw raw'
    simp only [operand, Except.ok.injEq, Operand.ea.injEq, EffectiveAddress.addrIndex.injEq,
      true_and]
    exact index_eq_iff
  | pcIndex =>
    refine ⟨rfl, ?_⟩
    intro raw raw'
    simp only [operand, Except.ok.injEq, Operand.ea.injEq, EffectiveAddress.pcIndex.injEq]
    exact index_eq_iff
  | bitNumber =>
    refine ⟨rfl, ?_⟩
    intro raw raw'
    simp only [operand, Except.ok.injEq, Operand.ea.injEq, EffectiveAddress.immediate.injEq,
      and_true]
    show raw % 32 = raw' % 32 ↔ raw / 1 % 32 = raw' / 1 % 32
    omega
  | _ => exact absurd rfl h

variable {memory other : Memory} {address : Int}

/-- The operand of a field without such bits tells the number in the field. -/
theorem eq_of_operand_of_full {field : Field} (hfull : field.significant = 16) {raw raw' : Int}
    {operand : Operand} (hload : memory.load field.access address = .ok raw)
    (hload' : other.load field.access address = .ok raw')
    (h : field.operand raw = .ok operand) (h' : field.operand raw' = .ok operand) :
    raw = raw' := by
  cases field with
  | addrIndex reg => simp [significant] at hfull
  | pcIndex => simp [significant] at hfull
  | bitNumber => simp [significant] at hfull
  | immediate size =>
    cases size with
    | byte =>
      -- The high half is zero, or else there were no operand.
      have hlow : ∀ {m : Memory} {number : Int}, m.load .uint16 address = .ok number →
          (immediate .byte).operand number = .ok operand →
            operand = .ea (.immediate number .byte) := by
        intro m number hnumber hoperand
        obtain ⟨hnonneg, hlt⟩ := Memory.range_of_load_uint16 hnumber
        by_cases hhigh : bits number 8 8 = 0
        · have hsmall : bits number 0 8 = number := by
            change number / 256 % 256 = 0 at hhigh
            show number / 1 % 256 = number
            omega
          simp only [Field.operand, immediateValue, if_pos hhigh, hsmall] at hoperand
          exact (Except.ok.inj hoperand).symm
        · simp only [Field.operand, immediateValue, if_neg hhigh] at hoperand
          cases hoperand
      have hsame := (hlow hload h).symm.trans (hlow hload' h')
      simpa using hsame
    | word => simpa [Field.operand, immediateValue] using h.trans h'.symm
    | long => simpa [Field.operand, immediateValue] using h.trans h'.symm
  | regList flag =>
    have hsame := h.trans h'.symm
    simp only [Field.operand, Except.ok.injEq, Operand.regList.injEq] at hsame
    exact hsame.1
  | _ => simpa [Field.operand] using h.trans h'.symm

/-- A field has the same operand in two memories exactly if its words agree there: the first
one in the bits that count, a second one in all bits. -/
theorem yields_iff_wordsAgree {field : Field} {operand : Operand}
    (horder : memory.order = other.order) (h : field.Yields memory address operand) :
    field.Yields other address operand ↔
      memory.WordsAgree other address field.significant ∧
        (field.extent = 4 → memory.WordsAgree other (address + 2) 16) := by
  have hholds := holds_of_yields h
  obtain ⟨raw, hload, hoperand⟩ := h
  by_cases hfull : field.significant = 16
  · -- All bits count, so that the field has the same operand in a copy only.
    have hcopied : field.Yields other address operand ↔
        memory.Copied address field.extent other address := by
      constructor
      · rintro ⟨raw', hload', hoperand'⟩
        obtain rfl := eq_of_operand_of_full hfull hload hload' hoperand hoperand'
        exact Memory.copied_of_load_eq horder hload hload'
      · intro hcopied
        exact ⟨raw, Memory.load_of_copied hcopied (Nat.le_refl _) hload, hoperand⟩
    rw [hcopied, hfull]
    obtain ⟨hbase, hlimit⟩ := hholds
    rcases field.extent_eq_two_or_four with htwo | hfour
    · rw [htwo] at hlimit ⊢
      rw [Memory.wordsAgree_iff_copied horder ⟨hbase, hlimit⟩]
      simp
    · rw [hfour] at hlimit ⊢
      rw [Memory.wordsAgree_iff_copied horder ⟨hbase, by omega⟩,
        Memory.wordsAgree_iff_copied horder ⟨by omega, by omega⟩]
      simpa using Memory.copied_add_iff (n := 2) (k := 2)
  · obtain ⟨haccess, hiff⟩ := operand_eq_iff_of_partial hfull
    have htwo : field.extent ≠ 4 := by
      rw [extent, haccess]
      decide
    rw [haccess] at hload
    constructor
    · rintro ⟨raw', hload', hoperand'⟩
      rw [haccess] at hload'
      have hbits := (hiff raw raw').mp (hoperand.trans hoperand'.symm)
      exact ⟨⟨raw, raw', hload, hload', hbits⟩, fun hfour => absurd hfour htwo⟩
    · rintro ⟨⟨word, raw', hword, hload', hbits⟩, -⟩
      obtain rfl : raw = word := Except.ok.inj (hload.symm.trans hword)
      exact ⟨raw', haccess ▸ hload', ((hiff raw raw').mpr hbits).symm.trans hoperand⟩

end Field

/-! ## Slots -/

namespace Layout

variable {layout : List Entry} {offset place : Int}

theorem significant_cons_self (field : Field) (key : String) :
    significant (field.entry key offset :: layout) offset = field.significant := by
  simp [significant]

theorem significant_cons_of_ne (field : Field) (key : String) (h : place ≠ offset) :
    significant (field.entry key offset :: layout) place = significant layout place := by
  simp [significant, h.symm]

end Layout

namespace Slot

variable {memory other : Memory} {start offset place : Int} {slots : List Slot}
  {operands : List Operand}

/-- No entry stands before the first field. -/
theorem significant_entries_of_lt (h : place < offset) :
    Layout.significant (entries offset slots) place = 16 := by
  induction slots generalizing offset with
  | nil => rfl
  | cons slot slots ih =>
    cases slot with
    | fixed operand => exact ih h
    | invalid fault => exact ih h
    | extension key field =>
      rw [entries, Layout.significant_cons_of_ne field key (by omega)]
      exact ih (by omega)

/-- Slots have the same operands in two memories exactly if their words agree there in the bits
that count. -/
theorem reads_iff_wordsAgree (horder : memory.order = other.order)
    (h : Reads memory (start + offset) slots operands) :
    Reads other (start + offset) slots operands ↔
      ∀ k : Nat, 2 * k < extent slots → memory.WordsAgree other (start + (offset + 2 * k))
        (Layout.significant (entries offset slots) (offset + 2 * k)) := by
  generalize haddress : start + offset = address at h ⊢
  induction h generalizing offset with
  | nil address =>
    exact ⟨fun _ k hk => absurd hk (Nat.not_lt_zero _), fun _ => .nil _⟩
  | fixed rest ih =>
    refine Iff.trans ⟨?_, .fixed⟩ (ih haddress)
    intro hreads
    cases hreads with
    | fixed hrest => exact hrest
  | @extension address key field operand slots operands head rest ih =>
    subst haddress
    have hfield := Field.yields_iff_wordsAgree horder head
    have hrest := ih (Int.add_assoc ..).symm
    have hsize := field.extent_eq_two_or_four
    have hsplit : Reads other (start + offset) (.extension key field :: slots)
        (operand :: operands) ↔ field.Yields other (start + offset) operand ∧
          Reads other (start + offset + field.extent) slots operands := by
      constructor
      · intro hreads
        cases hreads with
        | extension hhead htail => exact ⟨hhead, htail⟩
      · rintro ⟨hhead, htail⟩
        exact .extension hhead htail
    rw [hsplit, hfield, hrest]
    simp only [entries, extent]
    constructor
    · rintro ⟨⟨hfirst, hsecond⟩, hothers⟩ k hk
      by_cases hzero : k = 0
      · subst hzero
        simpa [Layout.significant_cons_self] using hfirst
      · rw [Layout.significant_cons_of_ne field key (by omega)]
        by_cases hinside : 2 * k < field.extent
        · -- The second word of a long field: no entry of its own stands there.
          obtain rfl : k = 1 := by omega
          rw [significant_entries_of_lt (by omega)]
          simpa [Int.add_assoc] using hsecond (by omega)
        · have hlater := hothers (k - field.extent / 2) (by omega)
          have hplace : offset + (field.extent : Int) + 2 * ((k - field.extent / 2 : Nat) : Int) =
              offset + 2 * k := by omega
          rw [hplace] at hlater
          exact hlater
    · intro hall
      refine ⟨⟨?_, ?_⟩, ?_⟩
      · simpa [Layout.significant_cons_self] using hall 0 (by omega)
      · intro hfour
        have hsecond := hall 1 (by omega)
        rw [Layout.significant_cons_of_ne field key (by omega),
          significant_entries_of_lt (by omega)] at hsecond
        simpa [Int.add_assoc] using hsecond
      · intro k hk
        have hlater := hall (k + field.extent / 2) (by omega)
        have hplace : offset + 2 * ((k + field.extent / 2 : Nat) : Int) =
            offset + (field.extent : Int) + 2 * k := by omega
        rw [hplace, Layout.significant_cons_of_ne field key (by omega)] at hlater
        exact hlater

end Slot

/-! ## Instructions -/

/-- The words of the instruction in the two memories agree in all bits that count. -/
def Instruction.Agrees (instruction : Instruction) (memory other : Memory) : Prop :=
  ∀ k : Nat, 2 * (k : Int) < instruction.length →
    memory.WordsAgree other (instruction.address + 2 * k)
      (Layout.significant instruction.layout (2 * k))

variable {memory other : Memory} {address : Int} {instruction : Instruction}

theorem Form.arrange_inj {form : Form} {operands operands' : List Operand}
    (h : form.arrange operands = form.arrange operands') : operands = operands' := by
  unfold Form.arrange at h
  split at h
  · exact List.reverse_inj.mp h
  · exact h

/-- The words of an instruction are its instruction word, all of which counts, and those of its
slots. -/
theorem Form.agrees_instruction_iff {form : Form} {word : Int} {operands : List Operand} :
    (form.instruction address word operands).Agrees memory other ↔
      memory.WordsAgree other address 16 ∧
        ∀ k : Nat, 2 * k < Slot.extent form.slots →
          memory.WordsAgree other (address + (2 + 2 * k))
            (Layout.significant (Slot.entries 2 form.slots) (2 + 2 * k)) := by
  have hfirst : Layout.significant (Slot.entries 2 form.slots) 0 = 16 :=
    Slot.significant_entries_of_lt (by decide)
  have hnext : ∀ k : Nat, 2 * ((k + 1 : Nat) : Int) = 2 + 2 * k := fun k => by omega
  show (∀ k : Nat, 2 * (k : Int) < 2 + Slot.extent form.slots →
    memory.WordsAgree other (address + 2 * k)
      (Layout.significant (Slot.entries 2 form.slots) (2 * k))) ↔ _
  constructor
  · intro hall
    refine ⟨?_, ?_⟩
    · simpa [hfirst] using hall 0 (by omega)
    · intro k hk
      have hword := hall (k + 1) (by omega)
      rw [hnext] at hword
      exact hword
  · rintro ⟨hopcode, hslots⟩ k hk
    cases k with
    | zero => simpa [hfirst] using hopcode
    | succ k =>
      rw [hnext] at hk ⊢
      exact hslots k (by omega)

/-- An instruction is decoded from two memories exactly if its words agree in them. -/
theorem decodeAt_eq_iff_agrees (horder : memory.order = other.order)
    (h : decodeAt memory address = .ok instruction) :
    decodeAt other address = .ok instruction ↔ instruction.Agrees memory other := by
  obtain ⟨word, form, operands, hload, hform, hreads, rfl⟩ := decodeAt_eq_ok_iff.mp h
  rw [Form.agrees_instruction_iff, ← Slot.reads_iff_wordsAgree horder hreads]
  constructor
  · intro h'
    obtain ⟨word', form', operands', hload', hform', hreads', heq⟩ := decodeAt_eq_ok_iff.mp h'
    obtain rfl : word = word' := congrArg Instruction.opcode heq
    obtain rfl : form = form' := Except.ok.inj (hform.symm.trans hform')
    obtain rfl : operands = operands' := Form.arrange_inj (congrArg Instruction.operands heq)
    exact ⟨⟨word, word, hload, hload', rfl⟩, hreads'⟩
  · rintro ⟨⟨found, word', hfound, hload', hbits⟩, hreads'⟩
    rw [Memory.bits_eq_of_load hfound, Memory.bits_eq_of_load hload'] at hbits
    obtain rfl : word = found := Except.ok.inj (hload.symm.trans hfound)
    obtain rfl := hbits
    exact decodeAt_eq_ok_iff.mpr ⟨word, form, operands, hload', hform, hreads', rfl⟩

/-- The layout follows from the instruction word, so instructions that agree in all else are
equal. -/
theorem eq_of_same {instruction' : Instruction} {address' : Int}
    (h : decodeAt memory address = .ok instruction)
    (h' : decodeAt other address' = .ok instruction')
    (hsame : instruction.same instruction' = true) : instruction = instruction' := by
  obtain ⟨word, form, operands, -, hform, -, rfl⟩ := decodeAt_eq_ok_iff.mp h
  obtain ⟨word', form', operands', -, hform', -, rfl⟩ := decodeAt_eq_ok_iff.mp h'
  have hall := of_decide_eq_true hsame
  obtain rfl : word = word' := congrArg Instruction.opcode hall
  obtain rfl : form = form' :=
    Except.ok.inj ((Opcode.form_of_form hform address').symm.trans hform')
  have haddress : address = address' := congrArg Instruction.address hall
  have hoperands : form.arrange operands = form.arrange operands' :=
    congrArg Instruction.operands hall
  unfold Form.instruction
  rw [haddress, hoperands]

namespace Disassembler

/-- **An instruction keeps every bit that counts.** If the same instruction is decoded at an
address of two memories of the same byte order, layouts apart, then the words that it was decoded
from are the same in both, up to bits 11 to 15 of words with an index register and bits 5 to 15 of
words with a bit number. Conversely, if the words of a decoded instruction stand in another memory
with changes in these bits only, then the same instruction is decoded there. -/
theorem decode_keeps_significant_bits (d d' : Disassembler) (address : Int)
    (instruction : Instruction) (horder : d.memory.order = d'.memory.order)
    (h : (d.decode (some address)).1 = .ok instruction) :
    (∀ instruction', (d'.decode (some address)).1 = .ok instruction' →
      instruction.same instruction' = true → instruction.Agrees d.memory d'.memory) ∧
    (instruction.Agrees d.memory d'.memory → (d'.decode (some address)).1 = .ok instruction) := by
  rw [d.decode_fst] at h
  rw [d'.decode_fst]
  have hiff := decodeAt_eq_iff_agrees horder h
  refine ⟨?_, hiff.mpr⟩
  intro instruction' h' hsame
  obtain rfl := eq_of_same h h' hsame
  exact hiff.mp h'

/-- A test of bit ten at an address with an index: the bits that do not count are set in one
memory and clear in the other. -/
theorem decode_keeps_significant_bits_of_bit_test :
    ∃ instruction,
      ((ofMemory ⟨#[0x08, 0x30, 0x00, 0x0A, 0x00, 0x05], 0, .big⟩).decode (some 0)).1 =
        .ok instruction ∧
      instruction.Agrees ⟨#[0x08, 0x30, 0x00, 0x0A, 0x00, 0x05], 0, .big⟩
        ⟨#[0x08, 0x30, 0xFF, 0xEA, 0xF8, 0x05], 0, .big⟩ ∧
      ((ofMemory ⟨#[0x08, 0x30, 0xFF, 0xEA, 0xF8, 0x05], 0, .big⟩).decode (some 0)).1 =
        .ok instruction := by
  obtain ⟨hsame, hchanged⟩ := decode_keeps_significant_bits
    (ofMemory ⟨#[0x08, 0x30, 0x00, 0x0A, 0x00, 0x05], 0, .big⟩)
    (ofMemory ⟨#[0x08, 0x30, 0xFF, 0xEA, 0xF8, 0x05], 0, .big⟩) 0 _ rfl rfl
  have hagrees := hsame _ rfl (by decide)
  exact ⟨_, rfl, hagrees, hchanged hagrees⟩

end Disassembler

end Disasm68k
