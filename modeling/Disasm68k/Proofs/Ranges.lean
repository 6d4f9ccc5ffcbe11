import Disasm68k.Proofs.Measure

/-!
# The ranges of operands

Operands hold integers of any size as far as their types go. Those of a decoded instruction are what
the fields of the hardware can hold: a register number has three bits, a displacement is a byte or a
word with a sign, and a number in the instruction word is one that its mnemonic allows.

- `EffectiveAddress.InRange`, `Operand.InRange`: the ranges, class by class;
- `Field.inRange_of_yields`: what the numbers in extension words can stand for;
- `Slot.inRange_of_suits`: the operands of the slots of the catalogue;
- `Instruction.InRange`: an instruction with such operands, and the bit numbers among them;
- `Disassembler.decode_in_range`: every decoded instruction is one.
-/

namespace Disasm68k

open Opcode

/-! ## Ranges -/

/-- The number of a register. -/
def IsRegisterNumber (n : Int) : Prop :=
  0 ≤ n ∧ n ≤ 7

/-- A byte with a sign. -/
def IsSignedByte (n : Int) : Prop :=
  -0x80 ≤ n ∧ n ≤ 0x7F

/-- A word with a sign. -/
def IsSignedWord (n : Int) : Prop :=
  -0x8000 ≤ n ∧ n ≤ 0x7FFF

/-- The numbers in the address are in the ranges of their fields. -/
def EffectiveAddress.InRange : EffectiveAddress → Prop
  | dataReg reg => IsRegisterNumber reg
  | addrReg reg => IsRegisterNumber reg
  | addrIndirect reg => IsRegisterNumber reg
  | postIncrement reg => IsRegisterNumber reg
  | preDecrement reg => IsRegisterNumber reg
  | addrDisp reg disp => IsRegisterNumber reg ∧ IsSignedWord disp
  | addrIndex reg disp index => IsRegisterNumber reg ∧ IsSignedByte disp ∧ IsRegisterNumber index
  | absShort addr => IsSignedWord addr
  | absLong addr => 0 ≤ addr ∧ addr ≤ 0xFFFFFFFF
  | pcDisp disp => IsSignedWord disp
  | pcIndex disp index => IsSignedByte disp ∧ IsRegisterNumber index
  | immediate value .byte => 0 ≤ value ∧ value ≤ 0xFF
  | immediate value .word => IsSignedWord value
  | immediate value .long => -0x80000000 ≤ value ∧ value ≤ 0x7FFFFFFF

/-- The numbers in the operand of an instruction are in the ranges of their fields. The word tells
short branches and the direction of a mask, the mnemonic tells what a quick number may be. -/
def Operand.InRange (word : Int) (mnemonic : String) : Operand → Prop
  | .ea address => address.InRange
  | .quick value => QuickRange mnemonic value
  | .specialReg name => name ∈ ["CCR", "SR", "USP"]
  | .regList mask names =>
    (0 ≤ mask ∧ mask ≤ 0xFFFF) ∧ names = RegisterMask.names mask (IsRegisterLoad word)
  | .branchDisp disp => IsSignedWord disp ∧ (IsShortBranch word → disp ≠ 0)

/-! ## Loaded numbers -/

namespace Memory

variable {memory : Memory} {address value : Int}

theorem isSignedWord_of_load (h : memory.load .int16 address = .ok value) :
    IsSignedWord value := by
  have hfits : (decide (-0x10000 ≤ 2 * value) && decide (2 * value < 0x10000)) = true :=
    fits_of_load h
  simp only [Bool.and_eq_true, decide_eq_true_eq] at hfits
  unfold IsSignedWord
  omega

theorem range_of_load_uint32 (h : memory.load .uint32 address = .ok value) :
    0 ≤ value ∧ value ≤ 0xFFFFFFFF := by
  have hfits : (decide (0 ≤ value) && decide (value < 0x100000000)) = true := fits_of_load h
  simp only [Bool.and_eq_true, decide_eq_true_eq] at hfits
  omega

theorem range_of_load_int32 (h : memory.load .int32 address = .ok value) :
    -0x80000000 ≤ value ∧ value ≤ 0x7FFFFFFF := by
  have hfits : (decide (-0x100000000 ≤ 2 * value) && decide (2 * value < 0x100000000)) = true :=
    fits_of_load h
  simp only [Bool.and_eq_true, decide_eq_true_eq] at hfits
  omega

end Memory

/-! ## Fields -/

namespace Field

variable {memory : Memory} {address word : Int} {mnemonic : String} {field : Field}
  {operand : Operand}

theorem isRegisterNumber_indexReg (raw : Int) : IsRegisterNumber (indexReg raw) := by
  have hlt : indexReg raw < 8 := bits_lt ..
  exact ⟨bits_nonneg .., by omega⟩

/-- The register that a field adds to, if there is one, has a number of three bits. -/
def Numbered : Field → Prop
  | addrDisp reg => IsRegisterNumber reg
  | addrIndex reg => IsRegisterNumber reg
  | _ => True

theorem numbered_of_ofMode {mode reg : Int} {code : Option Int} (h : OfMode mode reg code field)
    (hreg : IsRegisterNumber reg) : field.Numbered := by
  cases h with
  | addrDisp | addrIndex => exact hreg
  | _ => trivial

theorem isAddress_of_ofMode {mode reg : Int} {code : Option Int} (h : OfMode mode reg code field) :
    field.IsAddress := by
  cases h <;> trivial

/-- What the number in a field stands for is in range. -/
theorem inRange_of_yields (h : field.Yields memory address operand) (hreg : field.Numbered)
    (hlist : ∀ flag, field = .regList flag → flag = decide (IsRegisterLoad word))
    (hbranch : field = .branchDisp → ¬ IsShortBranch word) : operand.InRange word mnemonic := by
  obtain ⟨raw, hload, hraw⟩ := h
  cases field with
  | addrDisp reg =>
    cases hraw
    exact ⟨hreg, Memory.isSignedWord_of_load hload⟩
  | addrIndex reg =>
    cases hraw
    exact ⟨hreg, lowByte_range raw, isRegisterNumber_indexReg raw⟩
  | absShort =>
    cases hraw
    exact Memory.isSignedWord_of_load hload
  | absLong =>
    cases hraw
    exact Memory.range_of_load_uint32 hload
  | pcDisp =>
    cases hraw
    exact Memory.isSignedWord_of_load hload
  | pcIndex =>
    cases hraw
    exact ⟨lowByte_range raw, isRegisterNumber_indexReg raw⟩
  | immediate size =>
    cases size with
    | byte =>
      simp only [Field.operand, immediateValue] at hraw
      split at hraw
      · next value hvalue =>
        split at hvalue
        · cases hvalue
          cases hraw
          have hlt : bits raw 0 8 < 256 := bits_lt ..
          exact ⟨bits_nonneg .., by omega⟩
        · cases hvalue
      · cases hraw
    | word =>
      cases hraw
      exact Memory.isSignedWord_of_load hload
    | long =>
      cases hraw
      exact Memory.range_of_load_int32 hload
  | bitNumber =>
    cases hraw
    show 0 ≤ raw % 32 ∧ raw % 32 ≤ 0xFF
    omega
  | regList flag =>
    cases hraw
    have hrange := Memory.range_of_load_uint16 hload
    obtain rfl := hlist flag rfl
    exact ⟨⟨hrange.1, by omega⟩, rfl⟩
  | branchDisp =>
    cases hraw
    exact ⟨Memory.isSignedWord_of_load hload, fun hshort => absurd hshort (hbranch rfl)⟩

end Field

/-! ## Slots -/

/-- An address without extension words is in range if its register number is. -/
theorem EffectiveAddress.inRange_of_direct {address : EffectiveAddress}
    (hext : address.extBytes = 0) (hreg : IsRegisterNumber address.register) : address.InRange := by
  cases address with
  | dataReg | addrReg | addrIndirect | postIncrement | preDecrement => exact hreg
  | immediate value size => cases size <;> cases hext
  | _ => cases hext

namespace Slot

variable {memory : Memory} {word : Int} {mnemonic : String} {size : Option Size} {slot : Slot}
  {operand : Operand}

theorem inRange_ofMode {mode reg : Int} {own : Size} {key : String} (hreg : 0 ≤ reg ∧ reg < 8)
    (h : (ofMode mode reg (some own.code) key).Gives memory operand) :
    operand.InRange word mnemonic := by
  have hnumber : IsRegisterNumber reg := ⟨hreg.1, by omega⟩
  have hslot := resolves_ofMode mode reg (some own.code) key
  generalize ofMode mode reg (some own.code) key = slot at h hslot
  cases hslot with
  | direct address hmode hregister hext hlow =>
    obtain rfl : operand = .ea address := h
    exact EffectiveAddress.inRange_of_direct hext (hregister ▸ hnumber)
  | extended field hfield =>
    obtain ⟨place, hyields⟩ := h
    have haddress := Field.isAddress_of_ofMode hfield
    refine Field.inRange_of_yields hyields (Field.numbered_of_ofMode hfield hnumber) ?_ ?_
    · rintro flag rfl
      exact absurd haddress id
    · rintro rfl
      exact absurd haddress id
  | sizeless | missized | unsupported => exact absurd h id

/-- A branch with a low byte that is not zero has a displacement that is not zero. -/
theorem lowByte_ne_zero (h : IsShortBranch word) : lowByte word ≠ 0 := by
  have hlow : word / 1 % 256 ≠ 0 := h.2
  show word / 1 % 256 % 128 - word / 1 % 256 / 128 % 2 * 128 ≠ 0
  omega

/-- The operand of a slot of the catalogue is in range. -/
theorem inRange_of_suits (h : slot.Suits word mnemonic size) (hgives : slot.Gives memory operand) :
    operand.InRange word mnemonic := by
  cases h with
  | address own key => exact inRange_ofMode (reg_range word) hgives
  | destination own => exact inRange_ofMode (rx_range word) hgives
  | register address hext hrange =>
    obtain rfl : operand = .ea address := hgives
    exact EffectiveAddress.inRange_of_direct hext ⟨hrange.1, by omega⟩
  | quick value hquick =>
    obtain rfl : operand = .quick value := hgives
    exact hquick
  | special name hname =>
    obtain rfl : operand = .specialReg name := hgives
    exact hname
  | shortBranch hshort =>
    obtain rfl : operand = .branchDisp (lowByte word) := hgives
    have hrange := lowByte_range word
    exact ⟨⟨by omega, by omega⟩, fun _ => lowByte_ne_zero hshort⟩
  | data key own =>
    obtain ⟨place, hyields⟩ := hgives
    exact Field.inRange_of_yields hyields trivial (by rintro flag ⟨⟩) (by rintro ⟨⟩)
  | longBranch hlong =>
    obtain ⟨place, hyields⟩ := hgives
    refine Field.inRange_of_yields hyields trivial (by rintro flag ⟨⟩) fun _ hshort => ?_
    unfold IsLongBranch at hlong
    unfold IsShortBranch at hshort
    omega
  | peripheral =>
    obtain ⟨place, hyields⟩ := hgives
    have hrange := reg_range word
    exact Field.inRange_of_yields hyields ⟨hrange.1, by omega⟩ (by rintro flag ⟨⟩) (by rintro ⟨⟩)
  | refused hmove => exact absurd hgives id

end Slot

/-! ## Bit numbers -/

/-- The word is a bit instruction with the bit number in an extension word. -/
def Opcode.IsStaticBit (word : Int) : Prop :=
  group word = 0 ∧ bit8 word = 0 ∧ rx word = 4

instance (word : Int) : Decidable (IsStaticBit word) :=
  inferInstanceAs (Decidable (_ ∧ _))

/-- Only one rule takes the words of bit instructions with the bit number in an extension word. -/
theorem Rule.eq_bitStatic_of_isStaticBit {rule : Rule} {word : Int}
    (hfirst : first? word = some rule) (hstatic : IsStaticBit word) : rule = bitStatic := by
  have haccepts := accepts_of_first? hfirst
  have hgroup := group_mem_of_first? hfirst
  obtain ⟨hzero, hbit8, hfour⟩ := hstatic
  rw [hzero] at hgroup
  cases rule with
  | bitStatic => rfl
  | orToCcr | andToCcr | eorToCcr | orToSr | andToSr | eorToSr =>
    obtain rfl := of_decide_eq_true haccepts
    exact absurd hfour (by decide)
  | immediateOp =>
    simp only [accepts, hfour, Bool.and_eq_true] at haccepts
    exact absurd haccepts.1.2 (by decide)
  | movep =>
    simp only [accepts, Bool.and_eq_true, decide_eq_true_eq] at haccepts
    omega
  | bitDynamic =>
    have hone : bit8 word = 1 := of_decide_eq_true haccepts
    omega
  | _ => exact absurd hgroup (by decide)

/-! ## Instructions -/

/-- The operands of the instruction are in range: there are two at most, each of them is in the
range of its class, and a bit number in an extension word counts modulo 32. -/
structure Instruction.InRange (instruction : Instruction) : Prop where
  length_le : instruction.operands.length ≤ 2
  operands : ∀ operand ∈ instruction.operands,
    operand.InRange instruction.opcode instruction.mnemonic
  bitNumber : IsStaticBit instruction.opcode →
    ∃ number, instruction.operands.head? = some (.ea (.immediate number .byte)) ∧
      0 ≤ number ∧ number ≤ 31

/-- Slots that are read have as many operands. -/
theorem Slot.length_of_reads {memory : Memory} {address : Int} {slots : List Slot}
    {operands : List Operand} (h : Reads memory address slots operands) :
    operands.length = slots.length := by
  induction h with
  | nil address => rfl
  | fixed rest ih => rw [List.length_cons, List.length_cons, ih]
  | extension head rest ih => rw [List.length_cons, List.length_cons, ih]

theorem Form.length_arrange (form : Form) (operands : List Operand) :
    (form.arrange operands).length = operands.length := by
  unfold Form.arrange
  split
  · exact List.length_reverse
  · rfl

/-- The operands of every decoded instruction are in range. -/
theorem inRange_of_decodeAt {memory : Memory} {address : Int} {instruction : Instruction}
    (h : decodeAt memory address = .ok instruction) : instruction.InRange := by
  obtain ⟨word, form, operands, -, hform, hreads, rfl⟩ := decodeAt_eq_ok_iff.mp h
  refine ⟨?_, ?_, ?_⟩
  · show (form.arrange operands).length ≤ 2
    rw [form.length_arrange, Slot.length_of_reads hreads]
    exact Slot.length_le_two_of_planned (Opcode.planned_slots_of_form hform)
  · have hslots : ∀ slot ∈ form.slots, ∀ operand, slot.Gives memory operand →
        operand.InRange word form.mnemonic := by
      refine (Opcode.signed_of_form hform).forall_slots
        (fun slot hsuits operand => Slot.inRange_of_suits hsuits) ?_ ?_
      · rintro - operand ⟨place, hyields⟩
        exact Field.inRange_of_yields hyields trivial (by rintro flag ⟨⟩) (by rintro ⟨⟩)
      · rintro operand ⟨place, hyields⟩
        refine Field.inRange_of_yields hyields trivial ?_ (by rintro ⟨⟩)
        rintro flag ⟨⟩
        rfl
    intro operand hmem
    obtain ⟨slot, hslot, hgives⟩ := Slot.exists_gives hreads (Form.mem_arrange.mp hmem)
    exact hslots slot hslot operand hgives
  · intro hstatic
    obtain ⟨rule, hfirst, hrule⟩ := Rule.form_eq_ok_iff.mp hform
    obtain rfl := Rule.eq_bitStatic_of_isStaticBit hfirst hstatic
    obtain ⟨name, -, rfl⟩ := Option.map_eq_some_iff.mp hrule
    cases hreads with
    | extension head rest =>
      obtain ⟨raw, -, hraw⟩ := head
      cases hraw
      exact ⟨raw % 32, rfl, by omega, by omega⟩

namespace Disassembler

/-- **Operands are in the ranges of the hardware.** Whatever memory holds, the operands of a decoded
instruction are at most two, and each of them is what the fields of its class can hold. -/
theorem decode_in_range (d : Disassembler) (address : Option Int) (instruction : Instruction)
    (h : (d.decode address).1 = .ok instruction) : instruction.InRange := by
  rw [d.decode_fst] at h
  exact inRange_of_decodeAt h

/-- The bytes `08 BA FF FF 80 00` clear bit 31, at the lowest displacement. -/
theorem decode_in_range_of_bit_clear :
    ∃ clear : Instruction,
      ((ofMemory ⟨#[0x08, 0xBA, 0xFF, 0xFF, 0x80, 0x00], 0, .big⟩).decode none).1 = .ok clear ∧
      clear.operands = [.ea (.immediate 31 .byte), .ea (.pcDisp (-32768))] ∧ clear.InRange := by
  refine ⟨_, rfl, by decide, ?_⟩
  exact decode_in_range (ofMemory ⟨#[0x08, 0xBA, 0xFF, 0xFF, 0x80, 0x00], 0, .big⟩) none _ rfl

end Disassembler

end Disasm68k
