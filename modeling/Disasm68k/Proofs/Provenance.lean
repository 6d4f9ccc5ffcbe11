import Disasm68k.Disassembler
import Disasm68k.Proofs.Catalogue
import Disasm68k.Proofs.Reading

/-!
# Where operands come from

Every operand comes either from the instruction word or from the extension words, and for the
latter the layout says which. Reading the memory again at the place of an entry, in the way its
kind asks for, gives back the value of the operand; all other operands are functions of the
instruction word.

- `Operand.carries`: whether an operand has its value from extension words;
- `Layout.Rereads`: what an entry of a kind says about an operand, kind by kind;
- `Layout.Matches`: entries and operands that belong together one by one;
- `Slot.matches_of_reads`: the operands of slots match their layout;
- `Disassembler.decode_reads_back`: so do the operands of every decoded instruction.
-/

namespace Disasm68k

open Opcode

/-! ## Entries and operands -/

/-- Whether the operand of an instruction has its value from extension words. The word tells
the two kinds of branches apart. -/
def Operand.carries (word : Int) : Operand → Bool
  | .ea address => 0 < address.extBytes
  | .regList _ _ => true
  | .branchDisp _ => ¬ IsShortBranch word
  | .quick _ => false
  | .specialReg _ => false

namespace Layout

/-- The memory at a place, read by the kind of an entry, holds the value of the operand. The
flag tells in which direction registers are moved. -/
inductive Rereads (memory : Memory) (place : Int) (toRegisters : Bool) :
    String → Operand → Prop where
  | imm8 {value : Int} (load : memory.load .uint16 place = .ok value) (small : value < 256) :
      Rereads memory place toRegisters "imm8" (.ea (.immediate value .byte))
  | imm16 {value : Int} (load : memory.load .int16 place = .ok value) :
      Rereads memory place toRegisters "imm16" (.ea (.immediate value .word))
  | imm32 {value : Int} (load : memory.load .int32 place = .ok value) :
      Rereads memory place toRegisters "imm32" (.ea (.immediate value .long))
  | addrDisp {reg disp : Int} (load : memory.load .int16 place = .ok disp) :
      Rereads memory place toRegisters "d16_an" (.ea (.addrDisp reg disp))
  | pcDisp {disp : Int} (load : memory.load .int16 place = .ok disp) :
      Rereads memory place toRegisters "d16_pc" (.ea (.pcDisp disp))
  | absShort {addr : Int} (load : memory.load .int16 place = .ok addr) :
      Rereads memory place toRegisters "abs_w" (.ea (.absShort addr))
  | absLong {addr : Int} (load : memory.load .uint32 place = .ok addr) :
      Rereads memory place toRegisters "abs_l" (.ea (.absLong addr))
  | branchDisp {disp : Int} (load : memory.load .int16 place = .ok disp) :
      Rereads memory place toRegisters "disp16" (.branchDisp disp)
  /-- The low byte is the displacement, bits 8 to 10 are the index register. -/
  | addrIndex {reg raw : Int} (load : memory.load .uint16 place = .ok raw) :
      Rereads memory place toRegisters "d8_an_xn"
        (.ea (.addrIndex reg (signExtend (bits raw 0 8) 8) (bits raw 8 3)))
  | pcIndex {raw : Int} (load : memory.load .uint16 place = .ok raw) :
      Rereads memory place toRegisters "d8_pc_xn"
        (.ea (.pcIndex (signExtend (bits raw 0 8) 8) (bits raw 8 3)))
  | bitNumber {raw : Int} (load : memory.load .uint16 place = .ok raw) :
      Rereads memory place toRegisters "bitnum" (.ea (.immediate (raw % 32) .byte))
  | regList {mask : Int} (load : memory.load .uint16 place = .ok mask) :
      Rereads memory place toRegisters "reglist"
        (.regList mask (RegisterMask.names mask toRegisters))

/-- The entries belong to the operands one by one, and each says where the value of its operand
is to be read, by an offset from `start`. -/
def Matches (memory : Memory) (start : Int) (toRegisters : Bool) :
    List Entry → List Operand → Prop
  | [], [] => True
  | entry :: entries, operand :: operands =>
    (∃ offset, entry.offset? = some offset ∧
      Rereads memory (start + offset) toRegisters entry.kind operand) ∧
    Matches memory start toRegisters entries operands
  | _, _ => False

end Layout

namespace Field

variable {memory : Memory} {place word : Int} {field : Field} {operand : Operand}

/-- A byte of data is the whole word that it is read from. -/
theorem bits_low_eq {raw : Int} (hrange : 0 ≤ raw ∧ raw < 0x10000) (hhigh : bits raw 8 8 = 0) :
    bits raw 0 8 = raw ∧ raw < 256 := by
  change raw / 256 % 256 = 0 at hhigh
  show raw / 1 % 256 = raw ∧ raw < 256
  omega

/-- The kind of a field says how to read its operand again. -/
theorem rereads_of_yields (h : field.Yields memory place operand) {toRegisters : Bool}
    (hlist : ∀ flag, field = .regList flag → flag = toRegisters) :
    Layout.Rereads memory place toRegisters field.kind operand := by
  obtain ⟨raw, hload, hoperand⟩ := h
  cases field with
  | immediate size =>
    cases size with
    | byte =>
      by_cases hhigh : bits raw 8 8 = 0
      · obtain ⟨hlow, hsmall⟩ := bits_low_eq (Memory.range_of_load_uint16 hload) hhigh
        simp only [Field.operand, immediateValue, if_pos hhigh, hlow] at hoperand
        cases hoperand
        exact .imm8 hload hsmall
      · simp only [Field.operand, immediateValue, if_neg hhigh] at hoperand
        cases hoperand
    | word =>
      cases hoperand
      exact .imm16 hload
    | long =>
      cases hoperand
      exact .imm32 hload
  | regList flag =>
    obtain rfl := hlist flag rfl
    cases hoperand
    exact .regList hload
  | addrDisp reg =>
    cases hoperand
    exact .addrDisp hload
  | addrIndex reg =>
    cases hoperand
    exact .addrIndex hload
  | absShort =>
    cases hoperand
    exact .absShort hload
  | absLong =>
    cases hoperand
    exact .absLong hload
  | pcDisp =>
    cases hoperand
    exact .pcDisp hload
  | pcIndex =>
    cases hoperand
    exact .pcIndex hload
  | bitNumber =>
    cases hoperand
    exact .bitNumber hload
  | branchDisp =>
    cases hoperand
    exact .branchDisp hload

/-- What is read again from extension words comes from there. -/
theorem carries_of_rereads {toRegisters : Bool} {kind : String}
    (h : Layout.Rereads memory place toRegisters kind operand)
    (hbranch : kind = "disp16" → ¬ IsShortBranch word) : operand.carries word = true := by
  cases h with
  | branchDisp load => simpa [Operand.carries] using hbranch rfl
  | _ => rfl

theorem eq_branchDisp_of_kind (h : field.kind = "disp16") : field = .branchDisp := by
  cases field with
  | branchDisp => rfl
  | immediate size => cases size <;> simp [kind] at h
  | _ => simp [kind] at h

end Field

/-- An operand of an instruction, unless its value comes from extension words. -/
def Operand.own? (word : Int) (operand : Operand) : Option Operand :=
  if operand.carries word then none else some operand

/-! ## Slots -/

namespace Slot

variable {memory : Memory} {word start offset : Int} {slots : List Slot} {operands : List Operand}

/-- The operand that a slot has from the instruction word. -/
def own? : Slot → Option Operand
  | .fixed operand => some operand
  | .extension _ _ => none
  | .invalid _ => none

/-- An operand that the word holds does not come from extension words. -/
theorem carries_eq_false_of_fixed {operand : Operand} (h : Occurs word (.fixed operand)) :
    operand.carries word = false := by
  have hdirect : ∀ {mode reg : Int} {size : Size} {key : String},
      Slot.fixed operand = ofMode mode reg (some size.code) key →
        operand.carries word = false := by
    intro mode reg size key hmode
    have hslot := ofAddress_ofMode mode reg size key
    rw [← hmode] at hslot
    cases hslot with
    | direct address hext => simp [Operand.carries, hext]
  generalize hslot : Slot.fixed operand = slot at h
  cases h with
  | address size key => exact hdirect hslot
  | destination size => exact hdirect hslot
  | register address hext =>
    cases hslot
    simp [Operand.carries, hext]
  | quick value =>
    cases hslot
    rfl
  | special name =>
    cases hslot
    rfl
  | shortBranch hshort =>
    cases hslot
    simpa [Operand.carries] using hshort
  | _ => cases hslot

/-- What the word says about a field: the direction of a mask, and that a branch whose
displacement is a field is not a short one. -/
theorem field_of_occurs {key : String} {field : Field} (h : Occurs word (.extension key field)) :
    (∀ flag, field = .regList flag → flag = decide (IsRegisterLoad word)) ∧
      (field = .branchDisp → ¬ IsShortBranch word) := by
  have hextended : ∀ {mode reg : Int} {size : Size} {key' : String},
      Slot.extension key field = ofMode mode reg (some size.code) key' → field.IsAddress := by
    intro mode reg size key' hmode
    have hslot := ofAddress_ofMode mode reg size key'
    rw [← hmode] at hslot
    cases hslot with
    | extended field hfield => exact hfield
  -- A field of an effective address is neither of the two.
  have haddress : field.IsAddress → (∀ flag, field = .regList flag →
      flag = decide (IsRegisterLoad word)) ∧ (field = .branchDisp → ¬ IsShortBranch word) := by
    intro hfield
    refine ⟨?_, ?_⟩
    · rintro flag rfl
      exact absurd hfield id
    · rintro rfl
      exact absurd hfield id
  generalize hslot : Slot.extension key field = slot at h
  cases h with
  | address size key' => exact haddress (hextended hslot)
  | destination size => exact haddress (hextended hslot)
  | data key' size =>
    cases hslot
    exact haddress trivial
  | peripheral =>
    cases hslot
    exact haddress trivial
  | bitNumber =>
    cases hslot
    exact ⟨by rintro flag ⟨⟩, by rintro ⟨⟩⟩
  | mask =>
    cases hslot
    exact ⟨by rintro flag ⟨⟩; rfl, by rintro ⟨⟩⟩
  | longBranch hlong =>
    cases hslot
    exact ⟨by rintro flag ⟨⟩, fun _ => hlong⟩
  | _ => cases hslot

/-- An operand that a field holds comes from extension words. -/
theorem carries_of_extension {key : String} {field : Field} {operand : Operand} {address : Int}
    (hslot : Occurs word (.extension key field)) (h : field.Yields memory address operand) :
    operand.carries word = true := by
  obtain ⟨hlist, hbranch⟩ := field_of_occurs hslot
  exact Field.carries_of_rereads (Field.rereads_of_yields h hlist)
    (fun hkind => hbranch (Field.eq_branchDisp_of_kind hkind))

/-- **Operands match the layout.** The operands that slots have from extension words are, in
order, those that the entries of the layout stand for. -/
theorem matches_of_reads (hslots : ∀ slot ∈ slots, Occurs word slot)
    (h : Reads memory (start + offset) slots operands) :
    Layout.Matches memory start (IsRegisterLoad word) (entries offset slots)
      (operands.filter (Operand.carries word)) := by
  generalize haddress : start + offset = address at h
  induction h generalizing offset with
  | nil address => trivial
  | fixed rest ih =>
    rw [List.forall_mem_cons] at hslots
    obtain ⟨hhead, hrest⟩ := hslots
    rw [List.filter_cons_of_neg (by rw [carries_eq_false_of_fixed hhead]; decide)]
    exact ih hrest haddress
  | @extension address key field operand slots operands head rest ih =>
    rw [List.forall_mem_cons] at hslots
    obtain ⟨hhead, hrest⟩ := hslots
    subst haddress
    have hrereads := Field.rereads_of_yields head (field_of_occurs hhead).1
    rw [List.filter_cons_of_pos (carries_of_extension hhead head)]
    exact ⟨⟨offset, field.offset?_entry key offset, hrereads⟩, ih hrest (Int.add_assoc ..).symm⟩

/-- The other operands are those that slots have from the word. -/
theorem map_own?_of_reads {address : Int} (hslots : ∀ slot ∈ slots, Occurs word slot)
    (h : Reads memory address slots operands) :
    operands.map (Operand.own? word) = slots.map own? := by
  induction h with
  | nil address => rfl
  | fixed rest ih =>
    rw [List.forall_mem_cons] at hslots
    obtain ⟨hhead, hrest⟩ := hslots
    rw [List.map_cons, List.map_cons, ih hrest, Operand.own?, carries_eq_false_of_fixed hhead]
    rfl
  | @extension address key field operand slots operands head rest ih =>
    rw [List.forall_mem_cons] at hslots
    obtain ⟨hhead, hrest⟩ := hslots
    rw [List.map_cons, List.map_cons, ih hrest, Operand.own?, carries_of_extension hhead head]
    rfl

end Slot

/-! ## The order of operands -/

namespace Rule

variable {rule : Rule} {word : Int} {form : Form}

/-- Only one rule takes the words that load several registers. -/
theorem eq_movem_of_isRegisterLoad (hfirst : first? word = some rule)
    (hload : IsRegisterLoad word) : rule = movem := by
  have haccepts := accepts_of_first? hfirst
  have hgroup := group_mem_of_first? hfirst
  obtain ⟨hfour, hsix, hmode⟩ := hload
  rw [hfour] at hgroup
  cases rule with
  | movem => rfl
  | illegal | reset | nop | stop | rte | rts | trapv | rtr =>
    obtain rfl := of_decide_eq_true haccepts
    exact absurd hsix (by decide)
  | trap | moveUsp =>
    have hhigh : word / 16 % 4096 = _ := of_decide_eq_true haccepts
    change word / 512 % 8 = 6 at hsix
    omega
  | link | unlk =>
    have hhigh : word / 8 % 8192 = _ := of_decide_eq_true haccepts
    change word / 512 % 8 = 6 at hsix
    omega
  | jsr | jmp =>
    have hhigh : word / 64 % 1024 = _ := of_decide_eq_true haccepts
    change word / 512 % 8 = 6 at hsix
    omega
  | lea | chk =>
    have hother := of_decide_eq_true haccepts
    omega
  | unary =>
    simp only [accepts, hsix, Bool.and_eq_true] at haccepts
    exact absurd haccepts.1.2 (by decide)
  | moveFromSr | moveFromCcr | moveToCcr | moveToSr | nbcd | swap | pea | ext | tas =>
    simp only [accepts, hsix, Bool.and_eq_true, decide_eq_true_eq] at haccepts
    omega
  | _ => exact absurd hgroup (by decide)

/-- Only one rule writes operands in another order than it reads them. -/
theorem reversed_eq_false (hne : rule ≠ movem) (h : rule.form? word = some form) :
    form.reversed = false := by
  cases rule with
  | movem => exact absurd rfl hne
  | immediateOp | unary | shiftRegister =>
    obtain ⟨name, -, hsized⟩ := Option.bind_eq_some_iff.mp h
    obtain ⟨size, -, hform⟩ := Option.bind_eq_some_iff.mp hsized
    obtain rfl := Option.some.inj hform
    rfl
  | bitStatic | bitDynamic | addSubQuick | cmp | cmpm | eor | shiftMemory =>
    obtain ⟨found, -, rfl⟩ := Option.map_eq_some_iff.mp h
    rfl
  | or | sub | and | add =>
    obtain ⟨size, -, rfl⟩ := Option.map_eq_some_iff.mp h
    split <;> rfl
  | subx | addx =>
    obtain ⟨size, -, rfl⟩ := Option.map_eq_some_iff.mp h
    unfold registerPair
    split <;> rfl
  | move =>
    obtain ⟨size, -, rfl⟩ := Option.map_eq_some_iff.mp h
    dsimp only
    split
    · split <;> rfl
    · rfl
  | sbcd | abcd =>
    obtain rfl := Option.some.inj h
    unfold registerPair
    split <;> rfl
  | movep =>
    obtain rfl := Option.some.inj h
    unfold movepForm
    split <;> rfl
  | moveUsp =>
    obtain rfl := Option.some.inj h
    unfold moveUspForm
    split <;> rfl
  | _ =>
    obtain rfl := Option.some.inj h
    rfl

/-- Operands are written in the order in which they are read, except by a load of several
registers. -/
theorem reversed_eq (hfirst : first? word = some rule) (h : rule.form? word = some form) :
    form.reversed = decide (IsRegisterLoad word) := by
  by_cases hmovem : rule = movem
  · subst hmovem
    obtain rfl := Option.some.inj h
    have haccepts := accepts_of_first? hfirst
    have hgroup := List.mem_singleton.mp (group_mem_of_first? hfirst)
    simp only [accepts, Bool.and_eq_true, Bool.or_eq_true, decide_eq_true_eq] at haccepts
    show decide (rx word = 6) = _
    rw [decide_eq_decide]
    exact ⟨fun hsix => ⟨hgroup, hsix, haccepts.2⟩, fun hload => hload.2.1⟩
  · rw [reversed_eq_false hmovem h]
    refine (decide_eq_false fun hload => ?_).symm
    exact hmovem (eq_movem_of_isRegisterLoad hfirst hload)

end Rule

/-- The operands that an instruction word holds by itself, in the order in which they are
written, with nothing in the place of the others. -/
def Opcode.ownOperands (word : Int) : List (Option Operand) :=
  match Opcode.form word 0 with
  | .error _ => []
  | .ok form =>
    if form.reversed then (form.slots.map Slot.own?).reverse else form.slots.map Slot.own?

theorem Opcode.ownOperands_of_form {word : Int} {form : Form} (h : Opcode.form word 0 = .ok form) :
    ownOperands word =
      if form.reversed then (form.slots.map Slot.own?).reverse else form.slots.map Slot.own? := by
  unfold ownOperands
  rw [h]

/-! ## Instructions -/

namespace Instruction

/-- The operands in the order in which they are read: as written, except that a load of several
registers reads their list first and writes it last. -/
def operandsAsRead (instruction : Instruction) : List Operand :=
  if IsRegisterLoad instruction.opcode then instruction.operands.reverse else instruction.operands

/-- The memory and the instruction word account for every operand. -/
structure ReadsBack (memory : Memory) (start : Int) (instruction : Instruction) : Prop where
  /-- The entries of the layout stand for the operands that come from extension words. -/
  layout_matches : Layout.Matches memory start (IsRegisterLoad instruction.opcode)
    instruction.layout
    (instruction.operandsAsRead.filter (Operand.carries instruction.opcode))
  mnemonic_of_load : IsRegisterLoad instruction.opcode → instruction.mnemonic = "MOVEM"
  /-- The word alone decides the others. -/
  own_operands : instruction.operands.map (Operand.own? instruction.opcode) =
    Opcode.ownOperands instruction.opcode

end Instruction

/-- Every decoded instruction is accounted for. -/
theorem readsBack_of_decodeAt {memory : Memory} {address : Int} {instruction : Instruction}
    (h : decodeAt memory address = .ok instruction) : instruction.ReadsBack memory address := by
  obtain ⟨word, form, operands, -, hform, hreads, rfl⟩ := decodeAt_eq_ok_iff.mp h
  obtain ⟨rule, hfirst, hrule⟩ := Rule.form_eq_ok_iff.mp hform
  have hslots := Slot.occurs_of_planned (Opcode.planned_slots_of_form hform)
  have hreversed := Rule.reversed_eq hfirst hrule
  have hsame : Opcode.form word 0 = .ok form := Rule.form_eq_ok_iff.mpr ⟨rule, hfirst, hrule⟩
  refine ⟨?_, ?_, ?_⟩
  · have hread : (form.instruction address word operands).operandsAsRead = operands := by
      show (if IsRegisterLoad word then (form.arrange operands).reverse
        else form.arrange operands) = operands
      unfold Form.arrange
      rw [hreversed]
      by_cases hload : IsRegisterLoad word
      · simp [hload]
      · simp [hload]
    rw [hread]
    exact Slot.matches_of_reads hslots hreads
  · intro hload
    obtain rfl := Rule.eq_movem_of_isRegisterLoad hfirst hload
    obtain rfl := Option.some.inj hrule
    rfl
  · show (form.arrange operands).map (Operand.own? word) = Opcode.ownOperands word
    rw [Opcode.ownOperands_of_form hsame, ← Slot.map_own?_of_reads hslots hreads]
    unfold Form.arrange
    by_cases hback : form.reversed = true
    · rw [if_pos hback, if_pos hback, List.map_reverse]
    · rw [if_neg hback, if_neg hback]

namespace Disassembler

/-- **Operands are read from their own words.** Whatever memory holds, the entries of the layout
of a decoded instruction stand, in the order in which they were read, for its operands that come
from extension words, and reading each of them again gives the value of the operand. All other
operands are functions of the instruction word. -/
theorem decode_reads_back (d : Disassembler) (address : Option Int) (instruction : Instruction)
    (h : (d.decode address).1 = .ok instruction) :
    instruction.ReadsBack d.memory (address.getD d.pointer) := by
  rw [d.decode_fst] at h
  exact readsBack_of_decodeAt h

/-- The bytes `4C E8 00 03 00 04` load two registers from an address with a displacement. -/
theorem decode_reads_back_register_load :
    ∃ instruction,
      ((ofMemory ⟨#[0x4C, 0xE8, 0x00, 0x03, 0x00, 0x04], 0, .big⟩).decode none).1 =
        .ok instruction ∧
      instruction.ReadsBack ⟨#[0x4C, 0xE8, 0x00, 0x03, 0x00, 0x04], 0, .big⟩ 0 :=
  ⟨_, rfl, decode_reads_back (ofMemory ⟨#[0x4C, 0xE8, 0x00, 0x03, 0x00, 0x04], 0, .big⟩) none _ rfl⟩

end Disassembler

end Disasm68k
