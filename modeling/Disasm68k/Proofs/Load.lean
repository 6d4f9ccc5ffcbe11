import Disasm68k.Memory

/-!
# When a load succeeds

A load looks at nothing but the bounds of the memory: it succeeds exactly when all its
bytes lie between the base and the limit, and the number that it gives is one that the
access can spell.

- `Memory.Holds`: a run of bytes lies inside the memory;
- `Memory.slice?_eq_some_iff`: a run of bytes, byte by byte;
- `Memory.slice?_add_eq_some_iff`: a run of bytes in two parts;
- `Memory.exists_load_iff`: a load succeeds exactly on bytes that the memory holds;
- `Memory.fits_of_load`: what is loaded could be stored again by the same access.
-/

namespace Disasm68k

namespace Memory

variable {memory : Memory} {address value : Int} {count : Nat} {access : Access}

/-- The `count` bytes from `address` on lie inside the memory. -/
def Holds (memory : Memory) (address : Int) (count : Nat) : Prop :=
  memory.base ≤ address ∧ address + count ≤ memory.limit

instance (memory : Memory) (address : Int) (count : Nat) : Decidable (memory.Holds address count) :=
  inferInstanceAs (Decidable (_ ∧ _))

theorem isSome_byte?_iff : (memory.byte? address).isSome ↔ memory.Holds address 1 := by
  unfold byte? Holds limit size
  split
  · simp
    omega
  · simp
    omega

/-- A run of bytes can be read if it is empty or lies inside the memory. -/
theorem isSome_slice?_iff :
    (memory.slice? address count).isSome ↔ count = 0 ∨ memory.Holds address count := by
  induction count generalizing address with
  | zero => simp [slice?]
  | succ count ih =>
    have hsplit : (memory.slice? address (count + 1)).isSome ↔
        (memory.byte? address).isSome ∧ (memory.slice? (address + 1) count).isSome := by
      cases hb : memory.byte? address <;> cases hs : memory.slice? (address + 1) count <;>
        simp [slice?, hb, hs]
    rw [hsplit, isSome_byte?_iff, ih]
    unfold Holds
    omega

theorem length_of_slice? {bytes : List UInt8} (h : memory.slice? address count = some bytes) :
    bytes.length = count := by
  induction count generalizing address bytes with
  | zero =>
    cases h
    rfl
  | succ count ih =>
    unfold slice? at h
    cases hb : memory.byte? address with
    | none => simp [hb] at h
    | some b =>
      cases hs : memory.slice? (address + 1) count with
      | none => simp [hb, hs] at h
      | some rest =>
        obtain rfl : b :: rest = bytes := by simpa [hb, hs] using h
        simp [ih hs]

theorem slice?_succ_eq_some_iff {bytes : List UInt8} :
    memory.slice? address (count + 1) = some bytes ↔
      ∃ b rest, memory.byte? address = some b ∧ memory.slice? (address + 1) count = some rest ∧
        b :: rest = bytes := by
  rw [slice?]
  cases memory.byte? address with
  | none => simp
  | some b => cases memory.slice? (address + 1) count <;> simp

/-- A run of bytes holds at each place the byte of the memory there. -/
theorem slice?_eq_some_iff {bytes : List UInt8} :
    memory.slice? address count = some bytes ↔
      bytes.length = count ∧ ∀ k < count, memory.byte? (address + k) = bytes[k]? := by
  induction count generalizing address bytes with
  | zero => simp [slice?, eq_comm]
  | succ count ih =>
    rw [slice?_succ_eq_some_iff]
    constructor
    · rintro ⟨b, rest, hb, hrest, rfl⟩
      obtain ⟨hlength, hbytes⟩ := ih.mp hrest
      refine ⟨by rw [List.length_cons, hlength], fun k hk => ?_⟩
      cases k with
      | zero => simpa using hb
      | succ k =>
        have hplace : address + ((k + 1 : Nat) : Int) = address + 1 + k := by omega
        rw [hplace, hbytes k (by omega), List.getElem?_cons_succ]
    · rintro ⟨hlength, hbytes⟩
      obtain ⟨b, rest, rfl⟩ := List.exists_cons_of_length_eq_add_one hlength
      refine ⟨b, rest, by simpa using hbytes 0 (by omega), ih.mpr ⟨by simpa using hlength, ?_⟩, rfl⟩
      intro k hk
      have hplace : address + 1 + (k : Int) = address + ((k + 1 : Nat) : Int) := by omega
      rw [hplace, hbytes (k + 1) (by omega), List.getElem?_cons_succ]

/-- A run of bytes is made of its first bytes and the others behind them. -/
theorem slice?_add_eq_some_iff {m n : Nat} {bytes : List UInt8} :
    memory.slice? address (m + n) = some bytes ↔
      ∃ first second, memory.slice? address m = some first ∧
        memory.slice? (address + m) n = some second ∧ first ++ second = bytes := by
  induction m generalizing address bytes with
  | zero => simp [slice?]
  | succ m ih =>
    have hplace : address + ((m + 1 : Nat) : Int) = address + 1 + m := by omega
    rw [Nat.add_right_comm, slice?_succ_eq_some_iff, hplace]
    constructor
    · rintro ⟨b, rest, hb, hrest, rfl⟩
      obtain ⟨first, second, hfirst, hsecond, rfl⟩ := ih.mp hrest
      exact ⟨b :: first, second, slice?_succ_eq_some_iff.mpr ⟨b, first, hb, hfirst, rfl⟩, hsecond,
        rfl⟩
    · rintro ⟨_, second, hfirst, hsecond, rfl⟩
      obtain ⟨b, first, hb, hrest, rfl⟩ := slice?_succ_eq_some_iff.mp hfirst
      exact ⟨b, first ++ second, hb, ih.mpr ⟨first, second, hrest, hsecond, rfl⟩, rfl⟩

theorem byteCount_pos (access : Access) : 0 < access.byteCount := by
  unfold Access.byteCount
  cases access.size <;> decide

/-! ## Loads -/

/-- A load succeeds exactly when the memory holds its bytes. -/
theorem exists_load_iff :
    (∃ value, memory.load access address = .ok value) ↔
      memory.Holds address access.byteCount := by
  have hslice : (memory.slice? address access.byteCount).isSome ↔ _ := isSome_slice?_iff
  have hpos := byteCount_pos access
  unfold load
  cases h : memory.slice? address access.byteCount with
  | none =>
    rw [h] at hslice
    simp only [Option.isSome_none, Bool.false_eq_true, false_iff, not_or] at hslice
    simp [hslice.2]
  | some bytes =>
    rw [h] at hslice
    simp only [Option.isSome_some, true_iff] at hslice
    simpa using hslice.resolve_left (by omega)

theorem holds_of_load (h : memory.load access address = .ok value) :
    memory.Holds address access.byteCount :=
  exists_load_iff.mp ⟨value, h⟩

end Memory

/-! ## The range of loaded numbers -/

theorem ByteOrder.assembleLow_lt (bytes : List UInt8) :
    assembleLow bytes < Nat.pow 256 bytes.length := by
  induction bytes with
  | nil => decide
  | cons b rest ih =>
    have hb : b.toNat < 256 := b.toNat_lt
    show b.toNat + 256 * assembleLow rest < Nat.pow 256 rest.length * 256
    omega

theorem ByteOrder.assemble_lt (order : ByteOrder) (bytes : List UInt8) :
    order.assemble bytes < Nat.pow 256 bytes.length := by
  cases order with
  | big =>
    have hlow := assembleLow_lt bytes.reverse
    rw [List.length_reverse] at hlow
    exact hlow
  | little => exact assembleLow_lt bytes

/-- A number that the bytes of an access can spell, once interpreted, fits the access. -/
theorem Access.fits_interpret (access : Access) {raw : Nat}
    (h : raw < Nat.pow 256 access.byteCount) : access.fits (access.interpret raw) = true := by
  obtain ⟨size, signed⟩ := access
  cases size <;> cases signed <;>
    simp [byteCount, Size.byteCount] at h <;>
    simp [fits, interpret, span] <;> (try split) <;> omega

theorem Memory.fits_of_load {memory : Memory} {address value : Int} {access : Access}
    (h : memory.load access address = .ok value) : access.fits value = true := by
  unfold load at h
  cases hs : memory.slice? address access.byteCount with
  | none => simp [hs] at h
  | some bytes =>
    obtain rfl : access.interpret (memory.order.assemble bytes) = value := by
      simpa [hs] using h
    have hlt := memory.order.assemble_lt bytes
    rw [length_of_slice? hs] at hlt
    exact access.fits_interpret hlt

/-- An unsigned word is a number of sixteen bits. -/
theorem Memory.range_of_load_uint16 {memory : Memory} {address word : Int}
    (h : memory.load .uint16 address = .ok word) : 0 ≤ word ∧ word < 0x10000 := by
  have hfits : (decide (0 ≤ word) && decide (word < 0x10000)) = true := fits_of_load h
  simpa using hfits

end Disasm68k
