import Mathlib.Tactic.Ring
import Disasm68k.Proofs.Failure
import Disasm68k.Proofs.Stores

/-!
# Accesses of different sizes and signs

A memory is read and written by accesses of three sizes, with a sign or without one. They are views
of the same bytes: a signed number is the sign extension of the unsigned one at the same address, a
number of two bytes or of two words is made of its halves in the byte order of the memory, and a
signed number is stored as the unsigned one that it is congruent to, or half by half.

- `ByteOrder.join`, `ByteOrder.halves`: a number from two halves in the order of addresses, and the
  halves of a number;
- `ByteOrder.assemble_append`, `ByteOrder.split_double`: the same for the bytes of numbers;
- `Memory.load_signed`, `Memory.load_double_iff`: loads in terms of other loads;
- `Memory.store_signed`, `Memory.store_double`: stores in terms of other stores;
- `Memory.accesses_cohere`: the results together.
-/

namespace Disasm68k

/-! ## Halves of numbers -/

namespace ByteOrder

/-- The number whose halves stand one after the other, where each half has `radix` values. -/
def join (order : ByteOrder) (radix first second : Int) : Int :=
  match order with
  | big => first * radix + second
  | little => second * radix + first

/-- The two low halves of an integer in the order of addresses, where each half has `radix`
values. -/
def halves (order : ByteOrder) (radix value : Int) : Int × Int :=
  match order with
  | big => (value / radix % radix, value % radix)
  | little => (value % radix, value / radix % radix)

theorem assembleLow_append (first second : List UInt8) :
    assembleLow (first ++ second) = assembleLow first + 256 ^ first.length * assembleLow second := by
  induction first with
  | nil => simp [assembleLow]
  | cons b rest ih =>
    rw [List.cons_append, assembleLow, assembleLow, ih, List.length_cons, Nat.pow_succ]
    ring

/-- Bytes in a row spell the number that is made of the numbers of the two parts. -/
theorem assemble_append (order : ByteOrder) {first second : List UInt8}
    (h : first.length = second.length) :
    (order.assemble (first ++ second) : Int) =
      order.join (256 ^ first.length) (order.assemble first) (order.assemble second) := by
  cases order with
  | little =>
    show ((assembleLow (first ++ second) : Nat) : Int) = _
    rw [assembleLow_append]
    push_cast
    show _ = (assembleLow second : Int) * 256 ^ first.length + assembleLow first
    ring
  | big =>
    show ((assembleLow (first ++ second).reverse : Nat) : Int) = _
    rw [List.reverse_append, assembleLow_append, List.length_reverse, ← h]
    push_cast
    show _ = (assembleLow first.reverse : Int) * 256 ^ first.length + assembleLow second.reverse
    ring

theorem splitLow_add_mul (count : Nat) (value k : Int) :
    splitLow count (value + 256 ^ count * k) = splitLow count value := by
  induction count generalizing value with
  | zero => rfl
  | succ count ih =>
    have hsum : value + 256 ^ (count + 1) * k = value + 256 * (256 ^ count * k) := by ring
    rw [hsum, splitLow, splitLow, Int.add_mul_emod_self_left,
      Int.add_mul_ediv_left _ _ (by decide), ih]

/-- The bytes of an integer depend on its remainder by the number of values that they have. -/
theorem split_emod (order : ByteOrder) (count : Nat) (value : Int) :
    order.split count (value % 256 ^ count) = order.split count value := by
  have hlow : splitLow count (value % 256 ^ count) = splitLow count value := by
    rw [Int.emod_def, Int.sub_eq_add_neg, ← Int.mul_neg, splitLow_add_mul]
  cases order with
  | big => rw [split, split, hlow]
  | little => exact hlow

theorem splitLow_add (m n : Nat) (value : Int) :
    splitLow (m + n) value = splitLow m value ++ splitLow n (value / 256 ^ m) := by
  induction m generalizing value with
  | zero => simp [splitLow]
  | succ m ih =>
    have hplace : value / 256 / 256 ^ m = value / 256 ^ (m + 1) := by
      rw [Int.pow_succ', Int.ediv_ediv_of_nonneg (by decide)]
    rw [Nat.add_right_comm, splitLow, splitLow, ih, hplace, List.cons_append]

/-- The bytes of an integer are those of its halves in the order of addresses. -/
theorem split_double (order : ByteOrder) (count : Nat) (value : Int) :
    order.split (count + count) value =
      order.split count (order.halves (256 ^ count) value).1 ++
        order.split count (order.halves (256 ^ count) value).2 := by
  cases order with
  | big =>
    simp only [halves, split_emod]
    rw [split, splitLow_add, List.reverse_append]
    rfl
  | little =>
    simp only [halves, split_emod]
    exact splitLow_add count count value

end ByteOrder

/-! ## Loads -/

/-- Sign extension takes the upper half of the numbers of so many bits to the negative ones. -/
theorem signExtend_of_lt {value half : Int} {width : Nat} (hhalf : pow2 (width - 1) = half)
    (hnonneg : 0 ≤ value) (hlt : value < 2 * half) :
    signExtend value width = if half ≤ value then value - 2 * half else value := by
  have hpos : 0 < half := hhalf ▸ pow2_pos (width - 1)
  show value % pow2 (width - 1) - value / pow2 (width - 1) % 2 * pow2 (width - 1) = _
  rw [hhalf]
  by_cases hupper : half ≤ value
  · -- the sign bit is set, and what is left below it is less by half
    have hrest : value = value - half + half * 1 := by ring
    have hdiv : value / half = 1 := by
      rw [hrest, Int.add_mul_ediv_left _ _ (by omega),
        Int.ediv_eq_zero_of_lt (by omega) (by omega), Int.zero_add]
    have hmod : value % half = value - half := by
      rw [Int.emod_def, hdiv, Int.mul_one]
    rw [if_pos hupper, hdiv, hmod]
    omega
  · rw [if_neg hupper, Int.emod_eq_of_lt hnonneg (by omega),
      Int.ediv_eq_zero_of_lt hnonneg (by omega)]
    omega

/-- A number read with a sign is the sign extension of the number read without one. -/
theorem Access.interpret_signed (size : Size) {raw : Nat} (h : raw < Nat.pow 256 size.byteCount) :
    interpret ⟨size, true⟩ raw = signExtend raw (8 * size.byteCount) := by
  have hspan : (raw : Int) < span ⟨size, true⟩ := by
    cases size <;> exact Int.ofNat_lt.mpr h
  have hhalf : span ⟨size, true⟩ = 2 * pow2 (8 * size.byteCount - 1) := by
    cases size <;> decide
  rw [signExtend_of_lt rfl (Int.natCast_nonneg raw) (hhalf ▸ hspan), interpret, hhalf]
  simp only [true_and]
  by_cases hupper : pow2 (8 * size.byteCount - 1) ≤ raw
  · rw [if_pos hupper, if_pos (by omega)]
  · rw [if_neg hupper, if_neg (by omega)]

namespace Memory

variable {memory : Memory} {address value : Int} {size : Size}

/-- A load without a sign gives the number that the bytes spell. -/
theorem load_unsigned_iff :
    memory.load ⟨size, false⟩ address = .ok value ↔
      ∃ bytes, memory.slice? address size.byteCount = some bytes ∧
        (memory.order.assemble bytes : Int) = value := by
  cases hslice : memory.slice? address size.byteCount with
  | none => simp [load, Access.byteCount, hslice]
  | some bytes => simp [load, Access.byteCount, hslice, Access.interpret]

/-- A byte is read as it stands. -/
theorem load_uint8_iff :
    memory.load .uint8 address = .ok value ↔
      ∃ b, memory.byte? address = some b ∧ (b.toNat : Int) = value := by
  have hslice : memory.slice? address 1 = (memory.byte? address).map fun b => [b] := by
    cases h : memory.byte? address <;> simp [slice?, h]
  have hassemble (b : UInt8) : memory.order.assemble [b] = b.toNat := by
    cases memory.order <;> rfl
  refine load_unsigned_iff.trans ?_
  show (∃ bytes, memory.slice? address 1 = some bytes ∧ _) ↔ _
  simp [hslice, hassemble]

/-- Signed and unsigned loads of a size succeed and fail together, and the signed number is the
sign extension of the other. -/
theorem load_signed (memory : Memory) (address : Int) (size : Size) :
    memory.load ⟨size, true⟩ address =
      (memory.load ⟨size, false⟩ address).map fun raw => signExtend raw (8 * size.byteCount) := by
  cases hslice : memory.slice? address size.byteCount with
  | none =>
    have hload (signed : Bool) : memory.load ⟨size, signed⟩ address =
        .error (memory.accessFault ⟨size, signed⟩ address) := by
      simp only [load, Access.byteCount, hslice]
    rw [hload, hload]
    rfl
  | some bytes =>
    have hload (signed : Bool) : memory.load ⟨size, signed⟩ address =
        .ok (Access.interpret ⟨size, signed⟩ (memory.order.assemble bytes)) := by
      simp only [load, Access.byteCount, hslice]
    have hlt := memory.order.assemble_lt bytes
    rw [length_of_slice? hslice] at hlt
    rw [hload, hload, Access.interpret_signed size hlt]
    rfl

/-- A number is made of its halves, and can be read exactly if both of them can. -/
theorem load_double_iff (half whole : Size)
    (h : whole.byteCount = half.byteCount + half.byteCount) :
    memory.load ⟨whole, false⟩ address = .ok value ↔
      ∃ first second, memory.load ⟨half, false⟩ address = .ok first ∧
        memory.load ⟨half, false⟩ (address + half.byteCount) = .ok second ∧
        memory.order.join (256 ^ half.byteCount) first second = value := by
  rw [load_unsigned_iff, h]
  constructor
  · rintro ⟨bytes, hslice, rfl⟩
    obtain ⟨first, second, hfirst, hsecond, rfl⟩ := slice?_add_eq_some_iff.mp hslice
    have hlength := length_of_slice? hfirst
    refine ⟨_, _, load_unsigned_iff.mpr ⟨first, hfirst, rfl⟩,
      load_unsigned_iff.mpr ⟨second, hsecond, rfl⟩, ?_⟩
    rw [memory.order.assemble_append (hlength.trans (length_of_slice? hsecond).symm), hlength]
  · rintro ⟨_, _, hload, hload', rfl⟩
    obtain ⟨first, hfirst, rfl⟩ := load_unsigned_iff.mp hload
    obtain ⟨second, hsecond, rfl⟩ := load_unsigned_iff.mp hload'
    have hlength := length_of_slice? hfirst
    refine ⟨first ++ second, slice?_add_eq_some_iff.mpr ⟨first, second, hfirst, hsecond, rfl⟩, ?_⟩
    rw [memory.order.assemble_append (hlength.trans (length_of_slice? hsecond).symm), hlength]

/-! ## Stores -/

theorem overwrite_append (bytes : Array UInt8) (index : Nat) (first second : List UInt8) :
    overwrite bytes index (first ++ second) =
      overwrite (overwrite bytes index first) (index + first.length) second := by
  induction first generalizing bytes index with
  | nil => rfl
  | cons b rest ih =>
    rw [List.cons_append, overwrite, overwrite, ih, List.length_cons, Nat.add_right_comm,
      Nat.add_assoc]

/-- Bytes can be written part by part. -/
theorem write_append (hbase : memory.base ≤ address) (first second : List UInt8) :
    memory.write address (first ++ second) =
      (memory.write address first).write (address + first.length) second := by
  have hindex : (address + first.length - memory.base).toNat =
      (address - memory.base).toNat + first.length := by omega
  show { memory with bytes := overwrite memory.bytes _ (first ++ second) } = (_ : Memory)
  rw [overwrite_append, ← hindex]
  rfl

/-- A store whose bytes lie in memory and whose value is in range writes the bytes of the value. -/
theorem store_of_inRange {access : Access} (hholds : memory.Holds address access.byteCount)
    (hrange : access.InRange value) :
    memory.store access address value =
      (.ok (), memory.write address (memory.order.split access.byteCount value)) := by
  have hslice : (memory.slice? address access.byteCount).isSome :=
    isSome_slice?_iff.mpr (.inr hholds)
  have hnone : (memory.slice? address access.byteCount).isNone = false := by
    rw [← Option.not_isSome, hslice]
    rfl
  rw [store, hnone, if_neg (by decide), if_pos ((access.fits_iff_inRange value).mpr hrange)]

/-- A remainder by the number of values of a size can be stored without a sign. -/
theorem inRange_emod (size : Size) (value : Int) :
    Access.InRange ⟨size, false⟩ (value % 256 ^ size.byteCount) := by
  have hpos : (0 : Int) < 256 ^ size.byteCount := Int.pow_pos (by decide)
  refine ⟨Int.emod_nonneg _ (by omega), ?_⟩
  show value % 256 ^ size.byteCount < 2 ^ (8 * size.byteCount)
  rw [Int.pow_mul]
  exact Int.emod_lt_of_pos _ hpos

theorem inRange_halves (order : ByteOrder) (size : Size) (value : Int) :
    Access.InRange ⟨size, false⟩ (order.halves (256 ^ size.byteCount) value).1 ∧
      Access.InRange ⟨size, false⟩ (order.halves (256 ^ size.byteCount) value).2 := by
  cases order with
  | big => exact ⟨inRange_emod size _, inRange_emod size _⟩
  | little => exact ⟨inRange_emod size _, inRange_emod size _⟩

/-- A signed number is stored as the unsigned one that is congruent to it. -/
theorem store_signed (hholds : memory.Holds address size.byteCount)
    (hrange : Access.InRange ⟨size, true⟩ value) :
    ∃ after, memory.store ⟨size, true⟩ address value = (.ok (), after) ∧
      memory.store ⟨size, false⟩ address (value % 256 ^ size.byteCount) = (.ok (), after) := by
  refine ⟨_, store_of_inRange hholds hrange, ?_⟩
  rw [store_of_inRange hholds (inRange_emod size value)]
  show (_, memory.write address (memory.order.split size.byteCount _)) = _
  rw [memory.order.split_emod]
  rfl

/-- A number is stored by storing its halves, the first of them at the lower address. -/
theorem store_double (half whole : Size) {signed : Bool}
    (hwhole : whole.byteCount = half.byteCount + half.byteCount)
    (hholds : memory.Holds address whole.byteCount)
    (hrange : Access.InRange ⟨whole, signed⟩ value) :
    let halves := memory.order.halves (256 ^ half.byteCount) value
    ∃ middle after, memory.store ⟨half, false⟩ address halves.1 = (.ok (), middle) ∧
      middle.store ⟨half, false⟩ (address + half.byteCount) halves.2 = (.ok (), after) ∧
      memory.store ⟨whole, signed⟩ address value = (.ok (), after) := by
  intro halves
  obtain ⟨hfirst, hsecond⟩ := inRange_halves memory.order half value
  obtain ⟨hbase, hlimit⟩ := hholds
  let bytes := memory.order.split half.byteCount halves.1
  have hregion := sameRegion_write memory address bytes
  have hheld : memory.Holds address half.byteCount := ⟨hbase, by omega⟩
  have hheld' : (memory.write address bytes).Holds (address + half.byteCount) half.byteCount := by
    unfold Holds
    rw [hregion.base_eq, hregion.limit_eq]
    omega
  have hwritten : memory.store ⟨whole, signed⟩ address value = _ :=
    store_of_inRange ⟨hbase, hlimit⟩ hrange
  refine ⟨_, _, store_of_inRange hheld hfirst, store_of_inRange hheld' hsecond, ?_⟩
  rw [hwritten]
  show (Except.ok (), memory.write address (memory.order.split whole.byteCount value)) =
    (.ok (), (memory.write address bytes).write (address + half.byteCount)
      (memory.order.split half.byteCount halves.2))
  have hlength : bytes.length = half.byteCount := memory.order.length_split _ _
  rw [hwhole, memory.order.split_double, write_append hbase, hlength]

/-! ## All accesses at an address -/

/-- **The accesses of a memory agree with each other.** At every address of every memory, a byte is
read as it stands, and a word and a long word are made of the bytes and the words at the two
addresses where its halves are, in the byte order of the memory; they can be read exactly if the
halves can. Loads with a sign fail where those without one fail, for want of bytes, and give the
sign extension of the number otherwise. Where the bytes lie in memory, a store of a number that is
in range with a sign leaves the memory that a store of its remainder without a sign leaves, and a
long word is stored by storing its two words. -/
theorem accesses_cohere (memory : Memory) (address : Int) :
    (∀ value, memory.load .uint8 address = .ok value ↔
      ∃ b, memory.byte? address = some b ∧ (b.toNat : Int) = value) ∧
    (∀ value, memory.load .uint16 address = .ok value ↔
      ∃ first second, memory.load .uint8 address = .ok first ∧
        memory.load .uint8 (address + 1) = .ok second ∧
        memory.order.join 0x100 first second = value) ∧
    (∀ value, memory.load .uint32 address = .ok value ↔
      ∃ first second, memory.load .uint16 address = .ok first ∧
        memory.load .uint16 (address + 2) = .ok second ∧
        memory.order.join 0x10000 first second = value) ∧
    (∀ size : Size, memory.load ⟨size, true⟩ address =
      (memory.load ⟨size, false⟩ address).map fun raw => signExtend raw (8 * size.byteCount)) ∧
    (∀ access fault, memory.load access address = .error fault → fault.kind = .bufferTooShort) ∧
    (∀ (size : Size) (value : Int), memory.Holds address size.byteCount →
      Access.InRange ⟨size, true⟩ value →
      ∃ after, memory.store ⟨size, true⟩ address value = (.ok (), after) ∧
        memory.store ⟨size, false⟩ address (value % 256 ^ size.byteCount) = (.ok (), after)) ∧
    ∀ value, memory.Holds address 4 → Access.int32.InRange value →
      let halves := memory.order.halves 0x10000 value
      ∃ middle after, memory.store .uint16 address halves.1 = (.ok (), middle) ∧
        middle.store .uint16 (address + 2) halves.2 = (.ok (), after) ∧
        memory.store .int32 address value = (.ok (), after) := by
  refine ⟨fun _ => load_uint8_iff, ?_, ?_, load_signed memory address, ?_, ?_, ?_⟩
  · intro value
    exact load_double_iff .byte .word rfl
  · intro value
    exact load_double_iff .word .long rfl
  · intro access fault hload
    obtain ⟨-, rfl⟩ := load_eq_error_iff.mp hload
    exact memory.kind_accessFault access address
  · intro size value hholds hrange
    exact store_signed hholds hrange
  · intro value hholds hrange
    exact store_double .word .long rfl hholds hrange

/-- A word that reaches past the end of the memory, a negative word, and a negative long word whose
low half is one. -/
theorem accesses_cohere_on_negative_numbers :
    let memory : Memory := ⟨#[0, 0, 0, 0], 0x10, .little⟩
    let beyond : Fault := .outsideMemory 2 0x13 0x10 0x14
    memory.load .int16 0x13 = .error beyond ∧ beyond.kind = .bufferTooShort ∧
      memory.Holds 0x12 2 ∧ Access.int16.InRange (-2) ∧
      (∃ after, memory.store .int16 0x12 (-2) = (.ok (), after) ∧
        memory.store .uint16 0x12 0xFFFE = (.ok (), after)) ∧
      memory.Holds 0x10 4 ∧ Access.int32.InRange (-0x7FFFFFFF) ∧
      ∃ middle after, memory.store .uint16 0x10 1 = (.ok (), middle) ∧
        middle.store .uint16 0x12 0x8000 = (.ok (), after) ∧
        memory.store .int32 0x10 (-0x7FFFFFFF) = (.ok (), after) := by
  intro memory beyond
  have hbeyond : memory.load .int16 0x13 = .error beyond := by rfl
  have hword : memory.Holds 0x12 2 := by decide
  have hlong : memory.Holds 0x10 4 := by decide
  have hnegative : Access.int16.InRange (-2) := by decide
  have hlow : Access.int32.InRange (-0x7FFFFFFF) := by decide
  obtain ⟨-, -, -, -, hkind, -, -⟩ := accesses_cohere memory 0x13
  obtain ⟨-, -, -, -, -, hstores, -⟩ := accesses_cohere memory 0x12
  obtain ⟨-, -, -, -, -, -, hhalves⟩ := accesses_cohere memory 0x10
  exact ⟨hbeyond, hkind _ _ hbeyond, hword, hnegative, hstores .word (-2) hword hnegative, hlong,
    hlow, hhalves (-0x7FFFFFFF) hlong hlow⟩

end Memory

end Disasm68k
