import Disasm68k.Proofs.Isolation
import Disasm68k.Proofs.Writing

/-!
# What a run of stores leaves in memory

A client stores numbers one after the other, at any addresses, over each other and with values
that do not fit. A store is refused if its bytes do not all lie in memory, and then it does
nothing. Otherwise it sets its bytes: to the two's complement of the value in the byte order of the
memory, or to zero if the value is out of range, which is then reported. So in the end each byte is
what the last store that reached it has put there.

- `Access.InRange`: the values that an access can store;
- `ByteOrder.byteOf`: the bytes of an integer in two's complement, one by one;
- `Memory.Store`: a store, with `Store.failure?` for how it fails and `Store.byteAt` for the byte
  that it puts at an address;
- `Memory.perform_request`: what one store does;
- `Memory.byte?_afterStores`: what a run of stores leaves, byte by byte;
- `Memory.stores_leave_last_bytes`: the results together.
-/

namespace Disasm68k

/-! ## Values and their bytes -/

namespace Access

/-- The least value that the access can store: with a sign, that of two's complement. -/
def least (access : Access) : Int :=
  if access.signed then -2 ^ (8 * access.byteCount - 1) else 0

/-- The least number above the values that the access can store. -/
def bound (access : Access) : Int :=
  if access.signed then 2 ^ (8 * access.byteCount - 1) else 2 ^ (8 * access.byteCount)

/-- The access can store the value. -/
def InRange (access : Access) (value : Int) : Prop :=
  access.least ≤ value ∧ value < access.bound

instance (access : Access) (value : Int) : Decidable (access.InRange value) :=
  inferInstanceAs (Decidable (_ ∧ _))

theorem fits_iff_inRange (access : Access) (value : Int) :
    access.fits value = true ↔ access.InRange value := by
  obtain ⟨size, signed⟩ := access
  cases signed with
  | false =>
    simp only [fits, InRange, least, bound, Bool.false_eq_true, if_false, Bool.and_eq_true,
      decide_eq_true_eq]
    cases size <;> exact Iff.rfl
  | true =>
    simp only [fits, InRange, least, bound, if_true, Bool.and_eq_true, decide_eq_true_eq]
    cases size <;> simp only [span, byteCount, Size.byteCount] <;> omega

end Access

namespace ByteOrder

/-- The byte of an integer at a place, where place zero is the least significant byte. -/
def byteOf (value : Int) (place : Nat) : UInt8 :=
  UInt8.ofNat (value / 256 ^ place % 256).toNat

/-- The place of the byte that stands at an index among `count` bytes. -/
def place (order : ByteOrder) (count index : Nat) : Nat :=
  match order with
  | little => index
  | big => count - 1 - index

theorem length_splitLow (count : Nat) (value : Int) : (splitLow count value).length = count := by
  induction count generalizing value with
  | zero => rfl
  | succ count ih => rw [splitLow, List.length_cons, ih]

theorem length_split (order : ByteOrder) (count : Nat) (value : Int) :
    (order.split count value).length = count := by
  cases order with
  | big => rw [split, List.length_reverse, length_splitLow]
  | little => exact length_splitLow count value

theorem getElem?_splitLow {count index : Nat} (h : index < count) (value : Int) :
    (splitLow count value)[index]? = some (byteOf value index) := by
  induction count generalizing index value with
  | zero => omega
  | succ count ih =>
    cases index with
    | zero => simp [splitLow, byteOf]
    | succ index =>
      have hplace : value / 256 / 256 ^ index = value / 256 ^ (index + 1) := by
        rw [Int.pow_succ', Int.ediv_ediv_of_nonneg (by decide)]
      rw [splitLow, List.getElem?_cons_succ, ih (by omega), byteOf, byteOf, hplace]

/-- The bytes of a value stand in the byte order. -/
theorem getElem?_split (order : ByteOrder) {count index : Nat} (h : index < count) (value : Int) :
    (order.split count value)[index]? = some (byteOf value (order.place count index)) := by
  cases order with
  | little => exact getElem?_splitLow h value
  | big =>
    have hlength := length_splitLow count value
    rw [split, List.getElem?_reverse (by omega), hlength]
    exact getElem?_splitLow (by omega) value

end ByteOrder

/-! ## One store -/

namespace Memory

/-- A store of a number at an address. -/
structure Store where
  access : Access
  address : Int
  value : Int
deriving DecidableEq, Repr

namespace Store

/-- The store as a request to a memory. -/
def request (store : Store) : Request :=
  .store store.access store.address store.value

/-- All bytes of the store lie in memory. -/
def Reachable (memory : Memory) (store : Store) : Prop :=
  memory.Holds store.address store.access.byteCount

instance (memory : Memory) (store : Store) : Decidable (store.Reachable memory) :=
  inferInstanceAs (Decidable (memory.Holds _ _))

/-- The address is that of a byte of the store. -/
def Covers (store : Store) (address : Int) : Prop :=
  store.address ≤ address ∧ address < store.address + store.access.byteCount

instance (store : Store) (address : Int) : Decidable (store.Covers address) :=
  inferInstanceAs (Decidable (_ ∧ _))

/-- Why the store fails, if it does: the address is looked at first, then the value. -/
def failure? (memory : Memory) (store : Store) : Option StoreFault :=
  if ¬ store.Reachable memory then
    some (.unreachable (memory.accessFault store.access store.address))
  else if ¬ store.access.InRange store.value then some .valueOutOfRange
  else none

/-- The byte that the store puts at an address that it covers: a byte of its value, or zero if the
value is out of range. -/
def byteAt (order : ByteOrder) (store : Store) (address : Int) : UInt8 :=
  if store.access.InRange store.value then
    ByteOrder.byteOf store.value
      (order.place store.access.byteCount (address - store.address).toNat)
  else 0

/-- The bytes that the store writes. -/
def bytes (order : ByteOrder) (store : Store) : List UInt8 :=
  if store.access.InRange store.value then order.split store.access.byteCount store.value
  else List.replicate store.access.byteCount 0

theorem length_bytes (order : ByteOrder) (store : Store) :
    (store.bytes order).length = store.access.byteCount := by
  unfold bytes
  split
  · exact order.length_split _ _
  · exact List.length_replicate

theorem getElem?_bytes (order : ByteOrder) {store : Store} {address : Int}
    (h : store.Covers address) :
    (store.bytes order)[(address - store.address).toNat]? = some (store.byteAt order address) := by
  obtain ⟨hstart, hstop⟩ := h
  have hindex : (address - store.address).toNat < store.access.byteCount := by omega
  unfold bytes byteAt
  split
  · exact order.getElem?_split hindex _
  · rw [List.getElem?_replicate, if_pos hindex]

end Store

variable {memory other : Memory} {store : Store}

/-- The failure that a reply reports. -/
def failureOf : Except StoreFault Reply → Option StoreFault
  | .error fault => some fault
  | .ok _ => none

/-- **What a store does.** It fails as its address and its value say, and unless the address is at
fault it writes its bytes. -/
theorem perform_request (memory : Memory) (store : Store) :
    failureOf (memory.perform store.request).1 = store.failure? memory ∧
      (memory.perform store.request).2 =
        if store.Reachable memory then memory.write store.address (store.bytes memory.order)
        else memory := by
  have hpos := byteCount_pos store.access
  have hslice : (memory.slice? store.address store.access.byteCount).isNone ↔
      ¬ store.Reachable memory := by
    rw [← Option.not_isSome_iff_eq_none.trans Option.isNone_iff_eq_none.symm, isSome_slice?_iff,
      or_iff_right (by omega)]
    exact Iff.rfl
  unfold perform Store.request
  by_cases hreach : store.Reachable memory
  · by_cases hrange : store.access.InRange store.value
    · have hfits := (store.access.fits_iff_inRange store.value).mpr hrange
      simp [Memory.store, hslice, hreach, hfits, Store.failure?, Store.bytes, hrange, failureOf]
    · have hfits : store.access.fits store.value = false := by
        rw [← Bool.not_eq_true, store.access.fits_iff_inRange]
        exact hrange
      simp [Memory.store, hslice, hreach, hfits, Store.failure?, Store.bytes, hrange, failureOf]
  · simp [Memory.store, hslice, hreach, Store.failure?, failureOf]

theorem order_perform_request (memory : Memory) (store : Store) :
    (memory.perform store.request).2.order = memory.order := by
  rw [(perform_request memory store).2]
  split <;> rfl

/-- A store sets the bytes that it covers, if it reaches them, and no others. -/
theorem byte?_perform_request (memory : Memory) (store : Store) (address : Int) :
    (memory.perform store.request).2.byte? address =
      if store.Reachable memory ∧ store.Covers address then
        some (store.byteAt memory.order address)
      else memory.byte? address := by
  rw [(perform_request memory store).2]
  by_cases hreach : store.Reachable memory
  · have hlength := store.length_bytes memory.order
    have hheld : memory.Holds store.address (store.bytes memory.order).length := by
      rw [hlength]
      exact hreach
    rw [if_pos hreach]
    by_cases hcovers : store.Covers address
    · obtain ⟨hstart, hstop⟩ := hcovers
      have hplace : store.address + ((address - store.address).toNat : Int) = address := by omega
      have hbyte := byte?_write_of_inside hheld (k := (address - store.address).toNat) (by omega)
      rw [if_pos ⟨hreach, hstart, hstop⟩, ← store.getElem?_bytes memory.order ⟨hstart, hstop⟩,
        ← hbyte, hplace]
    · rw [if_neg fun h => hcovers h.2]
      refine byte?_write_of_outside hreach.1 ?_
      unfold Store.Covers at hcovers
      omega
  · rw [if_neg hreach, if_neg fun h => hreach h.1]

/-! ## Runs of stores -/

theorem SameRegion.reachable_iff (h : memory.SameRegion other) :
    store.Reachable other ↔ store.Reachable memory := by
  unfold Store.Reachable Holds
  rw [h.base_eq, h.limit_eq]

theorem SameRegion.failure?_eq (h : memory.SameRegion other) :
    store.failure? other = store.failure? memory := by
  simp only [Store.failure?, h.reachable_iff, accessFault, h.base_eq, h.limit_eq]

/-- The memory after stores. -/
def afterStores (memory : Memory) (stores : List Store) : Memory :=
  (memory.performAll (stores.map Store.request)).2

theorem afterStores_cons (memory : Memory) (store : Store) (stores : List Store) :
    memory.afterStores (store :: stores) =
      (memory.perform store.request).2.afterStores stores :=
  rfl

theorem afterStores_append (memory : Memory) (first second : List Store) :
    memory.afterStores (first ++ second) = (memory.afterStores first).afterStores second := by
  induction first generalizing memory with
  | nil => rfl
  | cons store first ih => exact ih (memory.perform store.request).2

theorem sameRegion_afterStores (memory : Memory) (stores : List Store) :
    memory.SameRegion (memory.afterStores stores) := by
  induction stores generalizing memory with
  | nil => exact .refl memory
  | cons store stores ih => exact (sameRegion_perform memory store.request).trans (ih _)

theorem order_afterStores (memory : Memory) (stores : List Store) :
    (memory.afterStores stores).order = memory.order := by
  induction stores generalizing memory with
  | nil => rfl
  | cons store stores ih => rw [afterStores_cons, ih, order_perform_request]

/-- The stores of a run fail as they would fail one by one at its start. -/
theorem map_failureOf_performAll (memory : Memory) (stores : List Store) :
    (memory.performAll (stores.map Store.request)).1.map failureOf =
      stores.map (Store.failure? memory) := by
  induction stores generalizing memory with
  | nil => rfl
  | cons store stores ih =>
    have hregion := sameRegion_perform memory store.request
    have hfailures : Store.failure? (memory.perform store.request).2 = Store.failure? memory :=
      funext fun _ => hregion.failure?_eq
    have hrest := ih (memory.perform store.request).2
    rw [hfailures] at hrest
    calc (memory.performAll (store.request :: stores.map Store.request)).1.map failureOf
        = failureOf (memory.perform store.request).1 ::
          ((memory.perform store.request).2.performAll (stores.map Store.request)).1.map
            failureOf := rfl
      _ = (store :: stores).map (Store.failure? memory) := by
        rw [(perform_request memory store).1, hrest, List.map_cons]

/-- The last store that reaches the byte at an address. -/
def lastStore? (memory : Memory) (stores : List Store) (address : Int) : Option Store :=
  stores.reverse.find? fun store => store.Reachable memory ∧ store.Covers address

theorem lastStore?_cons (memory : Memory) (store : Store) (stores : List Store) (address : Int) :
    memory.lastStore? (store :: stores) address =
      (memory.lastStore? stores address).or
        (if store.Reachable memory ∧ store.Covers address then some store else none) := by
  simp [lastStore?, List.find?_append, List.find?_singleton]

/-- Each byte is what the last store that reached it has put there, or what it was. -/
theorem byte?_afterStores (memory : Memory) (stores : List Store) (address : Int) :
    (memory.afterStores stores).byte? address =
      ((memory.lastStore? stores address).map fun store => store.byteAt memory.order address).or
        (memory.byte? address) := by
  induction stores generalizing memory with
  | nil => rfl
  | cons store stores ih =>
    have hregion := sameRegion_perform memory store.request
    -- The later stores reach the same bytes as at the start, because the bounds do not move.
    have hlater : (memory.perform store.request).2.lastStore? stores address =
        memory.lastStore? stores address := by
      simp only [lastStore?, hregion.reachable_iff]
    rw [afterStores_cons, ih, hlater, lastStore?_cons, order_perform_request,
      byte?_perform_request]
    cases memory.lastStore? stores address with
    | some later => rfl
    | none => split <;> rfl

/-- **Each byte is what the last store has put there.** Whatever is stored where, every store of a
run fails exactly if some of its bytes lie outside the memory, or else if its value is out of range;
one that fails for its address leaves the memory as it was. The run moves neither the bounds nor the
byte order. In the end each byte comes from the last store that covers it and lies in memory: it is
the byte of the value in two's complement, at its place in the byte order, or zero if the value was
out of range. A byte that no such store covers is what it was. -/
theorem stores_leave_last_bytes (memory : Memory) (stores : List Store) :
    (memory.performAll (stores.map Store.request)).1.map failureOf =
        stores.map (Store.failure? memory) ∧
      (∀ before store, before ++ [store] <+: stores → ¬ store.Reachable memory →
        memory.afterStores (before ++ [store]) = memory.afterStores before) ∧
      (memory.afterStores stores).base = memory.base ∧
      (memory.afterStores stores).size = memory.size ∧
      (memory.afterStores stores).order = memory.order ∧
      ∀ address, (memory.afterStores stores).byte? address =
        ((memory.lastStore? stores address).map fun store => store.byteAt memory.order address).or
          (memory.byte? address) := by
  have hregion := sameRegion_afterStores memory stores
  refine ⟨map_failureOf_performAll memory stores, ?_, hregion.base_eq, ?_,
    order_afterStores memory stores, byte?_afterStores memory stores⟩
  · intro before store hbefore hunreachable
    have hstill : ¬ store.Reachable (memory.afterStores before) :=
      mt (sameRegion_afterStores memory before).reachable_iff.mp hunreachable
    rw [afterStores_append]
    show ((memory.afterStores before).perform store.request).2 = memory.afterStores before
    rw [(perform_request _ store).2, if_neg hstill]
  · have hlimit : (memory.afterStores stores).base + (memory.afterStores stores).size =
        memory.base + memory.size := hregion.limit_eq
    rw [hregion.base_eq] at hlimit
    omega

/-- A word, a long word that does not lie in memory, and a byte with a value out of range that
falls on the upper byte of the word. -/
theorem stores_leave_last_bytes_of_overlap :
    let memory : Memory := ⟨#[1, 2, 3, 4], 0x10, .little⟩
    let word : Store := ⟨.int16, 0x11, -2⟩
    let long : Store := ⟨.int32, 0x12, 7⟩
    let byte : Store := ⟨.uint8, 0x12, 256⟩
    ¬ long.Reachable memory ∧
      memory.afterStores [word, long] = memory.afterStores [word] ∧
      (memory.afterStores [word, long, byte]).byte? 0x11 = some 0xFE ∧
      (memory.afterStores [word, long, byte]).byte? 0x12 = some 0 ∧
      (memory.afterStores [word, long, byte]).byte? 0x13 = some 4 := by
  intro memory word long byte
  have hunreachable : ¬ long.Reachable memory := by decide
  obtain ⟨-, hsame, -, -, -, hbytes⟩ := stores_leave_last_bytes memory [word, long, byte]
  refine ⟨hunreachable, hsame [word] long ⟨[byte], rfl⟩ hunreachable, ?_, ?_, ?_⟩
  · rw [hbytes]
    decide
  · rw [hbytes]
    decide
  · rw [hbytes]
    decide

/-- A store that fails may change the memory: a value out of range clears the byte. -/
theorem perform_clears_byte_of_wide_value :
    (⟨#[0x12], 0, .big⟩ : Memory).perform (.store .uint8 0 256) =
        (.error .valueOutOfRange, ⟨#[0], 0, .big⟩) ∧
      (⟨#[0], 0, .big⟩ : Memory) ≠ ⟨#[0x12], 0, .big⟩ :=
  ⟨rfl, by decide⟩

end Memory

end Disasm68k
