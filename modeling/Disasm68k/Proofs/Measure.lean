import Mathlib.Algebra.Ring.Nat
import Disasm68k.Disassembler
import Disasm68k.Proofs.Catalogue
import Disasm68k.Proofs.Resolution

/-!
# The length of an instruction from its operands

Operands are built apart from the reads that their values come from, some of them by hand. Still the
two accounts agree: an instruction is as long as its word and the extension words that its operands
stand for, and where it has a size, the numbers among its operands have that size.

- `Slot.Gives`: the operand that a slot has in memory;
- `Form.Signed.forall_slots`: what holds of the slots of the catalogue holds of the slots of a form;
- `Operand.bytes`: the bytes that an operand takes after the instruction word;
- `Slot.extent_of_suits`, `Slot.size_of_suits`: slots and their operands agree in bytes and sizes;
- `Disassembler.decode_measures_operands`: so do instructions.
-/

namespace Disasm68k

open Opcode

/-! ## Operands of single slots -/

namespace Slot

variable {memory : Memory} {operand : Operand}

/-- The slot has the operand in memory, with its field at some place. -/
def Gives (memory : Memory) : Slot → Operand → Prop
  | .fixed own, operand => operand = own
  | .extension _ field, operand => ∃ address, field.Yields memory address operand
  | .invalid _, _ => False

/-- Every operand that is read comes from one of the slots. -/
theorem exists_gives {address : Int} {slots : List Slot} {operands : List Operand}
    (h : Reads memory address slots operands) (hmem : operand ∈ operands) :
    ∃ slot ∈ slots, slot.Gives memory operand := by
  induction h with
  | nil address => cases hmem
  | @fixed address own slots operands rest ih =>
    rcases List.mem_cons.mp hmem with rfl | hlater
    · exact ⟨_, List.mem_cons_self, rfl⟩
    · obtain ⟨slot, hslot, hgives⟩ := ih hlater
      exact ⟨slot, List.mem_cons_of_mem _ hslot, hgives⟩
  | @extension address key field own slots operands head rest ih =>
    rcases List.mem_cons.mp hmem with rfl | hlater
    · exact ⟨_, List.mem_cons_self, address, head⟩
    · obtain ⟨slot, hslot, hgives⟩ := ih hlater
      exact ⟨slot, List.mem_cons_of_mem _ hslot, hgives⟩

/-- An effective address of a size gives an operand of its mode and its register. -/
theorem address_of_gives {mode reg : Int} {own : Size} {key : String}
    (h : (ofMode mode reg (some own.code) key).Gives memory operand) :
    ∃ address : EffectiveAddress, operand = .ea address ∧ address.mode = mode ∧
      address.register = reg := by
  have hslot := resolves_ofMode mode reg (some own.code) key
  generalize ofMode mode reg (some own.code) key = slot at h hslot
  cases hslot with
  | direct address hmode hreg hext hlow => exact ⟨address, h, hmode, hreg⟩
  | extended field hfield =>
    obtain ⟨place, raw, -, hraw⟩ := h
    obtain ⟨address, hoperand, hmode, hreg, -⟩ := Field.address_of_operand hfield hraw
    exact ⟨address, hoperand, hmode, hreg⟩
  | sizeless | missized | unsupported => exact absurd h id

end Slot

/-- A property that the slots of the catalogue have, and with them a bit number and a mask of
registers, is one of all the slots of a form. -/
theorem Form.Signed.forall_slots {word : Int} {form : Form} (h : form.Signed word)
    {P : Slot → Prop} (hsuits : ∀ slot : Slot, slot.Suits word form.mnemonic form.size → P slot)
    (hbit : form.size = .none → P (.extension "bit" .bitNumber))
    (hmask : P (.extension "mask" (.regList (IsRegisterLoad word)))) :
    ∀ slot ∈ form.slots, P slot := by
  cases h with
  | none hname =>
    intro slot hslot
    cases hslot
  | one hname hslot => exact List.forall_mem_singleton.mpr (hsuits _ hslot)
  | two hname hfirst hsecond =>
    exact List.forall_mem_cons.mpr
      ⟨hsuits _ hfirst, List.forall_mem_singleton.mpr (hsuits _ hsecond)⟩
  | bitTest hname =>
    exact List.forall_mem_cons.mpr
      ⟨hbit rfl, List.forall_mem_singleton.mpr (hsuits _ (.address _ _ (.inl rfl)))⟩
  | registers size =>
    exact List.forall_mem_cons.mpr
      ⟨hmask, List.forall_mem_singleton.mpr (hsuits _ (.address _ _ (.inr rfl)))⟩

/-! ## Bytes -/

/-- The bytes that an operand of an instruction takes after the instruction word: those of an
effective address, and a word for a mask of registers or for a displacement that is not in the
instruction word. -/
def Operand.bytes (word : Int) : Operand → Nat
  | .ea address => address.extBytes
  | .regList _ _ => 2
  | .branchDisp _ => if IsLongBranch word then 2 else 0
  | .quick _ => 0
  | .specialReg _ => 0

/-- A field has the bytes of its operand. -/
theorem Field.extent_of_yields {memory : Memory} {word address : Int} {field : Field}
    {operand : Operand} (h : field.Yields memory address operand)
    (hbranch : field = .branchDisp → IsLongBranch word) : field.extent = operand.bytes word := by
  obtain ⟨raw, -, hraw⟩ := h
  cases field with
  | immediate size =>
    simp only [Field.operand] at hraw
    split at hraw
    · cases hraw
      cases size <;> rfl
    · cases hraw
  | branchDisp =>
    cases hraw
    exact (if_pos (hbranch rfl)).symm
  | _ =>
    cases hraw
    rfl

namespace Slot

variable {memory : Memory} {word : Int} {mnemonic : String} {size : Option Size} {slot : Slot}
  {operand : Operand}

/-- Slots take the bytes of their operands if each of them does. -/
theorem extent_eq_sum {address : Int} {slots : List Slot} {operands : List Operand}
    {count : Operand → Nat} (h : Reads memory address slots operands)
    (hbytes : ∀ slot ∈ slots, ∀ operand, slot.Gives memory operand →
      extent [slot] = count operand) :
    extent slots = (operands.map count).sum := by
  induction h with
  | nil address => rfl
  | @fixed address operand slots operands rest ih =>
    rw [List.forall_mem_cons] at hbytes
    have hhead : 0 = count operand := hbytes.1 operand rfl
    rw [List.map_cons, List.sum_cons, ← hhead, Nat.zero_add]
    exact ih hbytes.2
  | @extension address key field operand slots operands head rest ih =>
    rw [List.forall_mem_cons] at hbytes
    have hhead : field.extent = count operand := hbytes.1 operand ⟨address, head⟩
    rw [List.map_cons, List.sum_cons, ← hhead, ← ih hbytes.2]
    rfl

theorem extent_ofMode {mode reg : Int} {own : Size} {key : String}
    (h : (ofMode mode reg (some own.code) key).Gives memory operand) :
    extent [ofMode mode reg (some own.code) key] = operand.bytes word := by
  have hslot := ofAddress_ofMode mode reg own key
  generalize ofMode mode reg (some own.code) key = slot at h hslot
  cases hslot with
  | direct address hext =>
    obtain rfl : operand = .ea address := h
    exact hext.symm
  | extended field hfield =>
    obtain ⟨place, hyields⟩ := h
    refine Field.extent_of_yields hyields ?_
    rintro rfl
    exact absurd hfield id
  | unsupported => exact absurd h id

/-- A slot of the catalogue takes the bytes of its operand. -/
theorem extent_of_suits (h : slot.Suits word mnemonic size) (hgives : slot.Gives memory operand) :
    extent [slot] = operand.bytes word := by
  cases h with
  | address own key => exact extent_ofMode hgives
  | destination own => exact extent_ofMode hgives
  | register address hext =>
    obtain rfl : operand = .ea address := hgives
    exact hext.symm
  | quick value =>
    obtain rfl : operand = .quick value := hgives
    rfl
  | special name =>
    obtain rfl : operand = .specialReg name := hgives
    rfl
  | shortBranch hshort =>
    obtain rfl : operand = .branchDisp (lowByte word) := hgives
    -- the displacement of a short branch is in the word
    refine (if_neg fun hlong => ?_).symm
    unfold IsLongBranch at hlong
    unfold IsShortBranch at hshort
    omega
  | data key own =>
    obtain ⟨place, hyields⟩ := hgives
    exact Field.extent_of_yields hyields (by rintro ⟨⟩)
  | longBranch hlong =>
    obtain ⟨place, hyields⟩ := hgives
    exact Field.extent_of_yields hyields fun _ => hlong
  | peripheral =>
    obtain ⟨place, hyields⟩ := hgives
    exact Field.extent_of_yields hyields (by rintro ⟨⟩)
  | refused hmove => exact absurd hgives id

/-! ## Sizes -/

theorem size_ofMode {mode reg value : Int} {own other : Size} {key : String}
    (h : (ofMode mode reg (some own.code) key).Gives memory (.ea (.immediate value other))) :
    other = own := by
  have hslot := resolves_ofMode mode reg (some own.code) key
  generalize ofMode mode reg (some own.code) key = slot at h hslot
  cases hslot with
  | direct address hmode hreg hext hlow =>
    obtain rfl : address = .immediate value other := (Operand.ea.inj h).symm
    have hseven : (7 : Int) = mode := hmode
    omega
  | extended field hfield =>
    obtain ⟨place, raw, -, hraw⟩ := h
    generalize hcode : some own.code = code at hfield
    cases hfield with
    | @immediate size =>
      obtain rfl : size = other := by
        simp only [Field.operand] at hraw
        split at hraw
        · cases hraw
          rfl
        · cases hraw
      have hsame : Size.ofCode? own.code = Size.ofCode? size.code := by
        rw [Option.some.inj hcode]
      rw [Size.ofCode?_code, Size.ofCode?_code] at hsame
      exact (Option.some.inj hsame).symm
    | _ => cases hraw
  | sizeless | missized | unsupported => exact absurd h id

/-- A number that a slot of the catalogue gives has the size of the instruction. -/
theorem size_of_suits (h : slot.Suits word mnemonic size) {value : Int} {own : Size}
    (hgives : slot.Gives memory (.ea (.immediate value own))) : size = none ∨ size = some own := by
  cases h with
  | address other key hsize =>
    obtain rfl := size_ofMode hgives
    exact hsize
  | destination other hsize =>
    obtain rfl := size_ofMode hgives
    exact .inr hsize
  | register address hext =>
    obtain rfl : .immediate value own = address := Operand.ea.inj hgives
    cases own <;> cases hext
  | data key other hsize =>
    obtain ⟨place, raw, -, hraw⟩ := hgives
    simp only [Field.operand] at hraw
    split at hraw
    · cases hraw
      exact hsize
    · cases hraw
  | longBranch | peripheral =>
    obtain ⟨place, raw, -, hraw⟩ := hgives
    cases hraw
  | quick | special | shortBranch => cases hgives
  | refused => exact absurd hgives id

end Slot

/-! ## Instructions -/

/-- The instruction agrees with its operands in length and in size. -/
structure Instruction.Measured (instruction : Instruction) : Prop where
  length_eq : instruction.length =
    2 + ((instruction.operands.map (Operand.bytes instruction.opcode)).sum : Nat)
  size_eq : ∀ size, instruction.size = some size →
    ∀ value own, Operand.ea (.immediate value own) ∈ instruction.operands → own = size

/-- The order in which operands are written does not matter for a sum over them. -/
theorem Form.sum_arrange (form : Form) (operands : List Operand) (count : Operand → Nat) :
    ((form.arrange operands).map count).sum = (operands.map count).sum := by
  unfold Form.arrange
  split
  · rw [List.map_reverse, List.sum_reverse]
  · rfl

theorem Form.mem_arrange {form : Form} {operands : List Operand} {operand : Operand} :
    operand ∈ form.arrange operands ↔ operand ∈ operands := by
  unfold Form.arrange
  split
  · exact List.mem_reverse
  · rfl

/-- Every decoded instruction agrees with its operands. -/
theorem measured_of_decodeAt {memory : Memory} {address : Int} {instruction : Instruction}
    (h : decodeAt memory address = .ok instruction) : instruction.Measured := by
  obtain ⟨word, form, operands, -, hform, hreads, rfl⟩ := decodeAt_eq_ok_iff.mp h
  have hsigned := Opcode.signed_of_form hform
  constructor
  · have hbytes : ∀ slot ∈ form.slots, ∀ operand, slot.Gives memory operand →
        Slot.extent [slot] = operand.bytes word := by
      refine hsigned.forall_slots (fun slot hsuits operand => Slot.extent_of_suits hsuits) ?_ ?_
      · rintro - operand ⟨place, hyields⟩
        exact Field.extent_of_yields hyields (by rintro ⟨⟩)
      · rintro operand ⟨place, hyields⟩
        exact Field.extent_of_yields hyields (by rintro ⟨⟩)
    show (2 : Int) + Slot.extent form.slots =
      2 + (((form.arrange operands).map (Operand.bytes word)).sum : Nat)
    rw [form.sum_arrange, Slot.extent_eq_sum hreads hbytes]
  · intro size hsize value own hmem
    obtain ⟨slot, hslot, hgives⟩ := Slot.exists_gives hreads (Form.mem_arrange.mp hmem)
    have hsizes : ∀ slot ∈ form.slots, slot.Gives memory (.ea (.immediate value own)) →
        form.size = none ∨ form.size = some own := by
      refine hsigned.forall_slots (fun slot hsuits => Slot.size_of_suits hsuits) ?_ ?_
      · intro hnone _
        exact .inl hnone
      · rintro ⟨place, raw, -, hraw⟩
        cases hraw
    have hsame : form.size = some size := hsize
    rcases hsizes slot hslot hgives with hnone | hown
    · rw [hnone] at hsame
      cases hsame
    · exact Option.some.inj (hown.symm.trans hsame)

namespace Disassembler

/-- **An instruction is as long as its operands ask for.** Whatever memory holds, the length of a
decoded instruction is that of its word, of the extension words of its effective addresses, and of a
word for each mask of registers and each displacement that is not in the instruction word. Where the
instruction has a size, the numbers among its operands have it too. -/
theorem decode_measures_operands (d : Disassembler) (address : Option Int)
    (instruction : Instruction) (h : (d.decode address).1 = .ok instruction) :
    instruction.Measured := by
  rw [d.decode_fst] at h
  exact measured_of_decodeAt h

/-- A move of a long number to a long address takes four bytes for each of them. -/
theorem decode_measures_long_move :
    ∃ move : Instruction,
      ((ofMemory ⟨#[0x23, 0xFC, 0xFF, 0xFF, 0xFF, 0xFF, 0x00, 0x01, 0x86, 0xA0], 6, .big⟩).decode
        none).1 = .ok move ∧
      move.size = some .long ∧ move.length = 10 ∧
      move.operands = [.ea (.immediate (-1) .long), .ea (.absLong 100000)] ∧ move.Measured := by
  refine ⟨_, rfl, rfl, rfl, by decide, ?_⟩
  exact decode_measures_operands
    (ofMemory ⟨#[0x23, 0xFC, 0xFF, 0xFF, 0xFF, 0xFF, 0x00, 0x01, 0x86, 0xA0], 6, .big⟩) none _ rfl

end Disassembler

end Disasm68k
