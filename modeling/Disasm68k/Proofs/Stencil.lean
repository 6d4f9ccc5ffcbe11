import Disasm68k.Proofs.Provenance
import Disasm68k.Proofs.Relocation

/-!
# What the instruction word fixes

Extension words hold values and nothing else. Which operation an instruction has, how many
operands of which classes, what registers they name, how long it is and how its extension words
are laid out: all that is in the instruction word. So where one instruction ends and the next
one begins never depends on data.

- `EffectiveAddress.stencil`, `Operand.stencil`: an operand with blanks for its values;
- `Field.stencil_eq_of_yields`: what a field holds is such a value;
- `Slot.stencils_eq_of_reads`: slots have operands with the same stencils in all memories;
- `Instruction.SameShape`: what two instructions with the same word have in common;
- `Disassembler.decode_shape_of_opcode`: they do have it in common.
-/

namespace Disasm68k

open Opcode

/-! ## Stencils -/

/-- The address with blanks for what extension words tell: displacement, index register, absolute
address and number. The class, the register and the size of a number stay. -/
def EffectiveAddress.stencil : EffectiveAddress → EffectiveAddress
  | dataReg reg => dataReg reg
  | addrReg reg => addrReg reg
  | addrIndirect reg => addrIndirect reg
  | postIncrement reg => postIncrement reg
  | preDecrement reg => preDecrement reg
  | addrDisp reg _ => addrDisp reg 0
  | addrIndex reg _ _ => addrIndex reg 0 0
  | absShort _ => absShort 0
  | absLong _ => absLong 0
  | pcDisp _ => pcDisp 0
  | pcIndex _ _ => pcIndex 0 0
  | immediate _ size => immediate 0 size

/-- The operand of an instruction with blanks for what extension words tell. The displacement of
a short branch stands in the instruction word and stays. -/
def Operand.stencil (word : Int) : Operand → Operand
  | .ea address => .ea address.stencil
  | .quick value => .quick value
  | .specialReg name => .specialReg name
  | .regList _ _ => .regList 0 []
  | .branchDisp disp => if IsShortBranch word then .branchDisp disp else .branchDisp 0

/-! ## Fields and slots -/

variable {memory other : Memory} {address address' word : Int}

/-- What a field holds is blank in the stencil, so any two numbers in it look the same there. -/
theorem Field.stencil_eq_of_yields {field : Field} {operand operand' : Operand}
    (hbranch : field = .branchDisp → ¬ IsShortBranch word)
    (h : field.Yields memory address operand) (h' : field.Yields other address' operand') :
    operand.stencil word = operand'.stencil word := by
  obtain ⟨raw, -, hoperand⟩ := h
  obtain ⟨raw', -, hoperand'⟩ := h'
  cases field with
  | immediate size =>
    simp only [Field.operand] at hoperand hoperand'
    split at hoperand
    · split at hoperand'
      · cases hoperand
        cases hoperand'
        rfl
      · cases hoperand'
    · cases hoperand
  | branchDisp =>
    cases hoperand
    cases hoperand'
    have hlong := hbranch rfl
    simp only [Operand.stencil, if_neg hlong]
  | _ =>
    cases hoperand
    cases hoperand'
    rfl

/-- **Slots fix the stencils of their operands.** Two readings of the same slots, from whatever
memories, differ in the values of fields only. -/
theorem Slot.stencils_eq_of_reads {slots : List Slot} {operands operands' : List Operand}
    (hslots : ∀ slot ∈ slots, Occurs word slot) (h : Reads memory address slots operands)
    (h' : Reads other address' slots operands') :
    operands.map (Operand.stencil word) = operands'.map (Operand.stencil word) := by
  induction h generalizing address' operands' with
  | nil address =>
    cases h'
    rfl
  | fixed rest ih =>
    rw [List.forall_mem_cons] at hslots
    cases h' with
    | fixed rest' => rw [List.map_cons, List.map_cons, ih hslots.2 rest']
  | extension head rest ih =>
    rw [List.forall_mem_cons] at hslots
    obtain ⟨hhead, hrest⟩ := hslots
    cases h' with
    | extension head' rest' =>
      have hbranch := (field_of_occurs hhead).2
      rw [List.map_cons, List.map_cons, Field.stencil_eq_of_yields hbranch head head',
        ih hrest rest']

/-! ## Instructions -/

/-- The instructions agree in all but their addresses and the values in their extension words. -/
structure Instruction.SameShape (first second : Instruction) : Prop where
  mnemonic_eq : first.mnemonic = second.mnemonic
  size_eq : first.size = second.size
  fullMnemonic_eq : first.fullMnemonic = second.fullMnemonic
  length_eq : first.length = second.length
  /-- The same entries, each with the same key, kind, offset, length and width. -/
  layout_eq : first.layout = second.layout
  /-- The same classes of operands in the same order, with the same registers, sizes, quick
  values, special registers and short displacements. -/
  stencils_eq : first.operands.map (Operand.stencil first.opcode) =
    second.operands.map (Operand.stencil second.opcode)

/-- Operands are written in an order that their stencils share. -/
theorem Form.map_arrange (form : Form) (f : Operand → Operand) (operands : List Operand) :
    (form.arrange operands).map f = form.arrange (operands.map f) := by
  unfold Form.arrange
  split
  · exact List.map_reverse
  · rfl

/-- Instructions of one form have the same shape if their operands have the same stencils. -/
theorem Form.sameShape {form : Form} {operands operands' : List Operand}
    (h : operands.map (Operand.stencil word) = operands'.map (Operand.stencil word)) :
    (form.instruction address word operands).SameShape
      (form.instruction address' word operands') where
  mnemonic_eq := rfl
  size_eq := rfl
  fullMnemonic_eq := rfl
  length_eq := rfl
  layout_eq := rfl
  stencils_eq := by
    show (form.arrange operands).map (Operand.stencil word) =
      (form.arrange operands').map (Operand.stencil word)
    rw [form.map_arrange, form.map_arrange, h]

/-- Two instructions with the same word have the same shape. -/
theorem sameShape_of_decodeAt {instruction instruction' : Instruction}
    (h : decodeAt memory address = .ok instruction)
    (h' : decodeAt other address' = .ok instruction')
    (hopcode : instruction.opcode = instruction'.opcode) :
    instruction.SameShape instruction' := by
  obtain ⟨word, form, operands, -, hform, hreads, rfl⟩ := decodeAt_eq_ok_iff.mp h
  obtain ⟨word', form', operands', -, hform', hreads', rfl⟩ := decodeAt_eq_ok_iff.mp h'
  obtain rfl : word = word' := hopcode
  -- The form depends on the word, not on where the word was found.
  obtain rfl : form = form' :=
    Except.ok.inj ((Opcode.form_of_form hform address').symm.trans hform')
  have hslots := Slot.occurs_of_planned (Opcode.planned_slots_of_form hform)
  exact Form.sameShape (Slot.stencils_eq_of_reads hslots hreads hreads')

namespace Disassembler

/-- **The instruction word alone fixes the shape of an instruction.** Two decodes that succeed on
the same word, in memories with whatever bytes, bases and byte orders, give instructions that
differ in nothing but their addresses and the values in their extension words. -/
theorem decode_shape_of_opcode (d d' : Disassembler) (address address' : Option Int)
    (instruction instruction' : Instruction) (h : (d.decode address).1 = .ok instruction)
    (h' : (d'.decode address').1 = .ok instruction')
    (hopcode : instruction.opcode = instruction'.opcode) :
    instruction.SameShape instruction' := by
  rw [decode_fst] at h h'
  exact sameShape_of_decodeAt h h' hopcode

/-- A mask and an index word are other values in memories of different byte orders; the move of
registers around them is the same, down to the register of the address. -/
theorem decode_shape_of_register_move :
    ∃ store store' : Instruction,
      ((ofMemory ⟨#[0x48, 0xB3, 0x00, 0x03, 0x20, 0x10], 0x100, .big⟩).decode none).1 = .ok store ∧
      ((ofMemory ⟨#[0xB3, 0x48, 0x80, 0xFF, 0xFE, 0x37], -6, .little⟩).decode
        (some (-6))).1 = .ok store' ∧
      store.operands = [.regList 3 ["D0", "D1"], .ea (.addrIndex 3 16 0)] ∧
      store'.operands = [.regList 0xFF80 ["D7", "A0", "A1", "A2", "A3", "A4", "A5", "A6", "A7"],
        .ea (.addrIndex 3 (-2) 7)] ∧
      store.SameShape store' := by
  refine ⟨_, _, rfl, rfl, by decide, by decide, ?_⟩
  exact decode_shape_of_opcode
    (ofMemory ⟨#[0x48, 0xB3, 0x00, 0x03, 0x20, 0x10], 0x100, .big⟩)
    (ofMemory ⟨#[0xB3, 0x48, 0x80, 0xFF, 0xFE, 0x37], -6, .little⟩) none (some (-6)) _ _ rfl rfl rfl

end Disassembler

end Disasm68k
