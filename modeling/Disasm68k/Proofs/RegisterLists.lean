import Mathlib.Data.Set.Function
import Disasm68k.Operand
import Disasm68k.Proofs.RegisterNames
import Disasm68k.Proofs.TwosComplement

/-!
# Lists of registers and the bits of their masks

A mask is an integer of any sign and size, of which sixteen bits count. The list of its registers
keeps the order D0 … D7, A0 … A7 in both directions of a move, so that the two directions differ as
a mask differs from its mirror image.

- `RegisterMask.reversal`, `RegisterMask.names_reversal`: the mirror image of a mask, and the
  registers that it names;
- `RegisterMask.names_congr`, `RegisterMask.names_emod`: the bits that count;
- `RegisterMask.length_names`: as many registers are named as bits are set;
- `Operand.text_regList`: how the list is written;
- `RegisterMask.names_follow_bits`: the results together.
-/

namespace Disasm68k

/-! ## The bits that count -/

namespace RegisterMask

variable {mask mask' : Int} {memoryToRegister memoryToRegister' : Bool}

theorem selects_eq_testBit (mask : Int) (memoryToRegister : Bool) (register : Nat) :
    selects mask memoryToRegister register = mask.testBit (bitOf memoryToRegister register) := by
  rw [Bool.eq_iff_iff, ← bits_eq_one_iff, selects, beq_iff_eq]

/-- Masks that select the same of the sixteen registers name the same. -/
theorem names_congr
    (h : ∀ register < 16, selects mask memoryToRegister register =
      selects mask' memoryToRegister' register) :
    names mask memoryToRegister = names mask' memoryToRegister' := by
  rw [names_eq_filter, names_eq_filter]
  refine congrArg (List.map Prod.fst) (List.filter_congr ?_)
  rintro ⟨name, register⟩ hmem
  have hname : registers[register]? = some name := List.mk_mem_zipIdx_iff_getElem?.mp hmem
  exact h register (List.getElem?_eq_some_iff.mp hname).1

theorem names_emod (mask : Int) (memoryToRegister : Bool) :
    names (mask % 0x10000) memoryToRegister = names mask memoryToRegister := by
  apply names_congr
  intro register hregister
  have hbit : bitOf memoryToRegister register + 1 ≤ 16 := bitOf_lt hregister
  have hsame := bits_emod mask hbit
  exact congrArg (· == 1) hsame

/-! ## The mirror image of a mask -/

/-- The low sixteen bits of a mask in the opposite order. -/
def reversal (mask : Int) : Int :=
  (Nat.ofBits fun bit : Fin 16 => mask.testBit (15 - bit) : Nat)

theorem testBit_reversal (mask : Int) {bit : Nat} (h : bit < 16) :
    (reversal mask).testBit bit = mask.testBit (15 - bit) :=
  Nat.testBit_ofBits_lt _ bit h

/-- A mask names from memory to registers what its mirror image names the other way. -/
theorem names_reversal (mask : Int) : names mask true = names (reversal mask) false := by
  apply names_congr
  intro register hregister
  rw [selects_eq_testBit, selects_eq_testBit]
  exact (testBit_reversal mask hregister).symm

example : reversal 0x0003 = 0xC000 ∧ reversal (-2) = 0x7FFF := by
  decide

/-! ## The list of names -/

theorem sublist_names (mask : Int) (memoryToRegister : Bool) :
    (names mask memoryToRegister).Sublist registers :=
  List.filter_sublist

/-- As many registers are named as there are set bits, in either direction. -/
theorem length_names (mask : Int) (memoryToRegister : Bool) :
    (names mask memoryToRegister).length = (List.range 16).countP mask.testBit := by
  have hselects : selects mask memoryToRegister =
      mask.testBit ∘ bitOf memoryToRegister := by
    funext register
    exact selects_eq_testBit mask memoryToRegister register
  -- the registers of the table take up the sixteen bits in some order
  have hperm : ((registers.zipIdx.map Prod.snd).map (bitOf memoryToRegister)).Perm
      (List.range 16) := by
    cases memoryToRegister with
    | false => decide
    | true => decide
  rw [names_eq_filter, List.length_map, ← List.countP_eq_length_filter, ← hperm.countP_eq, List.countP_map,
    List.countP_map, ← hselects]
  rfl

end RegisterMask

/-! ## The text of a list -/

theorem Token.render_registers (name : String) (names : List String) :
    Token.render (((name :: names).map Token.register).intersperse (.separator "/")) =
      "/".intercalate (name :: names) := by
  induction names generalizing name with
  | nil =>
    show name ++ "" = _
    rw [String.append_empty, String.intercalate_singleton]
  | cons other names ih =>
    rw [String.intercalate_cons_cons, ← ih, String.append_assoc]
    rfl

/-- A list of registers is written with slashes between the names, and as the number zero if it is
empty. -/
theorem Operand.text_regList (mask : Int) (names : List String) :
    (Operand.regList mask names).text = if names = [] then "#0" else "/".intercalate names := by
  cases names with
  | nil => rfl
  | cons name names =>
    rw [if_neg (List.cons_ne_nil name names)]
    exact Token.render_registers name names

namespace RegisterMask

/-- **The list of registers follows the bits.** Registers to memory, it is the part of the table
whose bits are set, in the order of the table; memory to registers, it is the list of the mirror
image. Either way it depends on the low sixteen bits of the mask only, tells them, and has a name
for each of them that is set. It is written as these names with slashes between them. -/
theorem names_follow_bits (mask : Int) :
    (names mask false).Sublist registers ∧ (names mask false).Nodup ∧
      (∀ register : Fin registers.length,
        registers.get register ∈ names mask false ↔ mask.testBit register = true) ∧
      names mask true = names (reversal mask) false ∧
      ∀ memoryToRegister : Bool,
        names (mask % 0x10000) memoryToRegister = names mask memoryToRegister ∧
          Set.InjOn (names · memoryToRegister) { other | 0 ≤ other ∧ other ≤ 0xFFFF } ∧
          (names mask memoryToRegister).length = (List.range 16).countP mask.testBit ∧
          (Operand.regList mask (names mask memoryToRegister)).text =
            if names mask memoryToRegister = [] then "#0"
            else "/".intercalate (names mask memoryToRegister) := by
  have hsublist := sublist_names mask false
  refine ⟨hsublist, hsublist.nodup nodup_registers, ?_, names_reversal mask, ?_⟩
  · intro register
    have hname : registers[register.val]? = some (registers.get register) :=
      List.getElem?_eq_getElem register.isLt
    rw [getElem_mem_names_iff hname, selects_eq_testBit]
    rfl
  · intro memoryToRegister
    refine ⟨names_emod mask memoryToRegister, ?_, length_names mask memoryToRegister,
      Operand.text_regList mask _⟩
    intro first hfirst second hsecond hsame
    exact names_injective hfirst hsecond hsame

end RegisterMask

end Disasm68k
