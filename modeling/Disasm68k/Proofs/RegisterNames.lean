import Disasm68k.RegisterMask

/-!
# Masks told by the names of their registers

The names of the registers of a mask stand in one order, whichever way the bits of the mask count.
So the names alone do not tell the mask, but with the direction of the move they do.

- `RegisterMask.selects`: whether a mask names a register, by the bit that stands for it;
- `RegisterMask.names_eq_filter`: the names are those of the registers that the mask selects, no
  matter through which table they were collected;
- `RegisterMask.names_injective`: masks of sixteen bits that name the same registers in the same
  direction are equal.
-/

namespace Disasm68k

/-- Numbers of so many bits are equal if their bits are. -/
theorem eq_of_bits_eq (count : Nat) {a b : Int} (ha : 0 ≤ a ∧ a < pow2 count)
    (hb : 0 ≤ b ∧ b < pow2 count) (h : ∀ k < count, bits a k 1 = bits b k 1) : a = b := by
  obtain ⟨m, rfl⟩ := Int.eq_ofNat_of_zero_le ha.1
  obtain ⟨n, rfl⟩ := Int.eq_ofNat_of_zero_le hb.1
  rw [pow2, Nat.one_shiftLeft, Int.ofNat_lt] at ha hb
  have hbits (i : Nat) (x : Nat) : bits x i 1 = ((x / 2 ^ i % 2 : Nat) : Int) := by
    rw [bits, pow2, Nat.one_shiftLeft]
    rfl
  refine congrArg Int.ofNat (Nat.eq_of_testBit_eq fun i => ?_)
  by_cases hi : i < count
  · have hsame := h i hi
    rw [hbits, hbits, Int.ofNat_inj] at hsame
    rw [Nat.testBit_eq_decide_div_mod_eq, Nat.testBit_eq_decide_div_mod_eq, hsame]
  · -- the bits above are zero in both
    have hle : 2 ^ count ≤ 2 ^ i := Nat.pow_le_pow_right (by decide) (Nat.le_of_not_lt hi)
    rw [Nat.testBit_lt_two_pow (Nat.lt_of_lt_of_le ha.2 hle),
      Nat.testBit_lt_two_pow (Nat.lt_of_lt_of_le hb.2 hle)]

namespace RegisterMask

variable {mask mask' : Int} {memoryToRegister : Bool} {name : String} {register : Nat}

theorem nodup_registers : registers.Nodup := by
  decide

/-- The bit of a mask that stands for a register. -/
def bitOf (memoryToRegister : Bool) (register : Nat) : Nat :=
  if memoryToRegister then 15 - register else register

/-- Whether the mask names the register of the given number. -/
def selects (mask : Int) (memoryToRegister : Bool) (register : Nat) : Bool :=
  bits mask (bitOf memoryToRegister register) 1 == 1

theorem bitOf_bitOf (h : register < 16) :
    bitOf memoryToRegister (bitOf memoryToRegister register) = register := by
  cases memoryToRegister with
  | false => rfl
  | true =>
    show 15 - (15 - register) = register
    omega

theorem bitOf_lt (h : register < 16) : bitOf memoryToRegister register < 16 := by
  cases memoryToRegister with
  | false => exact h
  | true =>
    show 15 - register < 16
    omega

/-- A bit below the sixteenth stands for the register whose bit it is. -/
theorem getElem?_table (memoryToRegister : Bool) {bit : Nat} (h : bit < 16) :
    (table memoryToRegister)[bit]? = registers[bitOf memoryToRegister bit]? := by
  cases memoryToRegister with
  | false => rfl
  | true => exact List.getElem?_reverse h

theorem length_table (memoryToRegister : Bool) : (table memoryToRegister).length = 16 := by
  cases memoryToRegister <;> rfl

theorem mem_selected_iff :
    name ∈ selected mask memoryToRegister ↔
      ∃ bit, (table memoryToRegister)[bit]? = some name ∧ bits mask bit 1 = 1 := by
  constructor
  · intro h
    obtain ⟨⟨entry, bit⟩, hentry, rfl⟩ := List.mem_map.mp h
    obtain ⟨hmem, hset⟩ := List.mem_filter.mp hentry
    exact ⟨bit, List.mk_mem_zipIdx_iff_getElem?.mp hmem, eq_of_beq hset⟩
  · rintro ⟨bit, hname, hset⟩
    exact List.mem_map.mpr
      ⟨(name, bit),
        List.mem_filter.mpr ⟨List.mk_mem_zipIdx_iff_getElem?.mpr hname, beq_iff_eq.mpr hset⟩, rfl⟩

/-- The name of a register is collected if and only if the mask selects the register. -/
theorem getElem_mem_selected_iff (hname : registers[register]? = some name) :
    name ∈ selected mask memoryToRegister ↔ selects mask memoryToRegister register = true := by
  have hregister : register < 16 := (List.getElem?_eq_some_iff.mp hname).1
  rw [mem_selected_iff, selects, beq_iff_eq]
  constructor
  · -- the bit that has brought the name into the collection is the one of the register
    rintro ⟨bit, hbit, hset⟩
    have hlt : bit < 16 :=
      Nat.lt_of_lt_of_eq (List.getElem?_eq_some_iff.mp hbit).1 (length_table memoryToRegister)
    rw [getElem?_table memoryToRegister hlt] at hbit
    obtain rfl : bitOf memoryToRegister bit = register :=
      (List.getElem?_inj (bitOf_lt hlt) nodup_registers).mp (hbit.trans hname.symm)
    rw [bitOf_bitOf hlt]
    exact hset
  · intro hset
    refine ⟨bitOf memoryToRegister register, ?_, hset⟩
    rw [getElem?_table memoryToRegister (bitOf_lt hregister), bitOf_bitOf hregister]
    exact hname

/-- **The names by the bits.** They are those of the registers that the mask selects, in the order
of the registers. -/
theorem names_eq_filter (mask : Int) (memoryToRegister : Bool) :
    names mask memoryToRegister =
      (registers.zipIdx.filter fun entry => selects mask memoryToRegister entry.2).map Prod.fst := by
  have hall : registers.zipIdx.map Prod.fst = registers := List.zipIdx_map_fst 0 registers
  refine (congrArg (List.filter _) hall.symm).trans ?_
  rw [List.filter_map]
  refine congrArg (List.map Prod.fst) (List.filter_congr ?_)
  rintro ⟨name, register⟩ hmem
  have hname : registers[register]? = some name := List.mk_mem_zipIdx_iff_getElem?.mp hmem
  rw [Bool.eq_iff_iff, Function.comp_apply, decide_eq_true_eq]
  exact getElem_mem_selected_iff hname

theorem mem_registers_of_mem_names (h : name ∈ names mask memoryToRegister) :
    name ∈ registers :=
  (List.mem_filter.mp h).1

/-- A mask names a register if and only if it selects it. -/
theorem getElem_mem_names_iff (hname : registers[register]? = some name) :
    name ∈ names mask memoryToRegister ↔ selects mask memoryToRegister register = true := by
  rw [names, List.mem_filter, decide_eq_true_eq, getElem_mem_selected_iff hname]
  exact and_iff_right (List.mem_of_getElem? hname)

/-- A register is selected by one bit, which is zero otherwise. -/
theorem bit_eq (mask : Int) (memoryToRegister : Bool) (register : Nat) :
    bits mask (bitOf memoryToRegister register) 1 =
      if selects mask memoryToRegister register then 1 else 0 := by
  have hnonneg := bits_nonneg mask (bitOf memoryToRegister register) 1
  have hlt : bits mask (bitOf memoryToRegister register) 1 < 2 := bits_lt ..
  by_cases hone : bits mask (bitOf memoryToRegister register) 1 = 1
  · rw [selects, hone]
    rfl
  · rw [selects, beq_eq_false_iff_ne.mpr hone]
    show _ = (0 : Int)
    omega

/-- **The registers tell the mask.** Masks of sixteen bits that name the same registers in the same
direction are equal. -/
theorem names_injective (hmask : 0 ≤ mask ∧ mask ≤ 0xFFFF) (hmask' : 0 ≤ mask' ∧ mask' ≤ 0xFFFF)
    (h : names mask memoryToRegister = names mask' memoryToRegister) : mask = mask' := by
  have hlimit : (0xFFFF : Int) < pow2 16 := by
    decide
  refine eq_of_bits_eq 16 ⟨hmask.1, by omega⟩ ⟨hmask'.1, by omega⟩ ?_
  intro k hk
  have hselects : selects mask memoryToRegister (bitOf memoryToRegister k) =
      selects mask' memoryToRegister (bitOf memoryToRegister k) := by
    have hname : registers[bitOf memoryToRegister k]? = some _ :=
      List.getElem?_eq_getElem (bitOf_lt hk)
    rw [Bool.eq_iff_iff, ← getElem_mem_names_iff hname, ← getElem_mem_names_iff hname, h]
  have hbit := bit_eq mask memoryToRegister (bitOf memoryToRegister k)
  rw [hselects, ← bit_eq, bitOf_bitOf hk] at hbit
  exact hbit

end RegisterMask

end Disasm68k
