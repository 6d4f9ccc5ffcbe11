import Disasm68k.Proofs.Encoding
import Disasm68k.Proofs.Reading

/-!
# What slots need of the memory

Whether slots can be read depends on little: that none of them is invalid, that the memory
reaches far enough, and that bytes of data have nothing in the high half of their word. The
items of the encoding say just that much.

- `Slot.outline`: the items of slots, or nothing if one of them is invalid;
- `Encoding.Readable`: items that can be read at an address;
- `Slot.exists_reads_iff`: slots can be read exactly if their items can;
- `Slot.outline_ofMode`: the items of an effective address.
-/

namespace Disasm68k

open Encoding

/-! ## Items in memory -/

namespace Encoding

/-- The items can be read one after the other from the address on. -/
def Readable (memory : Memory) : Int → List Item → Prop
  | _, [] => True
  | address, item :: items =>
    memory.Holds address item.extent ∧
      (item = .byte → ∀ raw, memory.load .uint16 address = .ok raw → raw < 256) ∧
      Readable memory (address + item.extent) items

variable {memory : Memory} {address : Int}

theorem Item.extent_pos (item : Item) : 0 < item.extent := by
  cases item <;> decide

theorem Item.mem_bytePlaces_cons {item : Item} {items : List Item} {place : Int} :
    place ∈ bytePlaces address (item :: items) ↔
      (item = .byte ∧ place = address) ∨ place ∈ bytePlaces (address + item.extent) items := by
  cases item with
  | byte =>
    show place ∈ address :: bytePlaces (address + 2) items ↔ _
    rw [List.mem_cons]
    simp [extent]
  | word => simp [bytePlaces, extent]
  | long => simp [bytePlaces, extent]

/-- Items behind an address of the memory can be read if the memory reaches to their end and
the bytes of data among them are bytes. -/
theorem readable_iff {items : List Item} (hbase : memory.base ≤ address)
    (hlimit : address ≤ memory.limit) :
    Readable memory address items ↔
      (∀ place ∈ Item.bytePlaces address items, ∀ raw,
        memory.load .uint16 place = .ok raw → raw < 256) ∧
      address + Item.total items ≤ memory.limit := by
  induction items generalizing address with
  | nil =>
    simp only [Readable, Item.bytePlaces, Item.total, true_iff]
    exact ⟨fun place hplace => absurd hplace (List.not_mem_nil), by omega⟩
  | cons item items ih =>
    have hpos := item.extent_pos
    have hends : address + ((item.extent + Item.total items : Nat) : Int) =
        address + item.extent + Item.total items := by omega
    simp only [Readable, Item.mem_bytePlaces_cons, Item.total, hends]
    constructor
    · rintro ⟨hholds, hbyte, hrest⟩
      obtain ⟨hplaces, hend⟩ := (ih (by omega) hholds.2).mp hrest
      refine ⟨?_, hend⟩
      rintro place (⟨hitem, rfl⟩ | hlater)
      · exact hbyte hitem
      · exact hplaces place hlater
    · rintro ⟨hplaces, hend⟩
      have hfits : address + item.extent ≤ memory.limit := by omega
      refine ⟨⟨hbase, hfits⟩, fun hitem => hplaces address (.inl ⟨hitem, rfl⟩), ?_⟩
      exact (ih (by omega) hfits).mpr ⟨fun place hlater => hplaces place (.inr hlater), hend⟩

end Encoding

/-! ## Fields -/

namespace Field

variable {memory : Memory} {address : Int}

/-- What a field is in the extension words. -/
def item : Field → Item
  | immediate size => .ofSize size
  | absLong => .long
  | _ => .word

theorem extent_item (field : Field) : field.item.extent = field.extent := by
  cases field with
  | immediate size => cases size <;> rfl
  | _ => rfl

/-- A number of sixteen bits is a byte if its high half is zero. -/
theorem bits_high_eq_zero_iff {raw : Int} (h : 0 ≤ raw ∧ raw < 0x10000) :
    bits raw 8 8 = 0 ↔ raw < 256 := by
  show raw / 256 % 256 = 0 ↔ raw < 256
  omega

theorem immediate_byte_operand_isOk_iff {raw : Int} (h : 0 ≤ raw ∧ raw < 0x10000) :
    (∃ operand, (immediate .byte).operand raw = .ok operand) ↔ raw < 256 := by
  rw [← bits_high_eq_zero_iff h]
  unfold operand immediateValue
  by_cases hhigh : bits raw 8 8 = 0
  · simp [hhigh]
  · simp [hhigh]

/-- Only a byte of data is looked at when it is read. -/
theorem exists_operand {field : Field} (h : field.item ≠ .byte) (raw : Int) :
    ∃ operand, field.operand raw = .ok operand := by
  cases field with
  | immediate size =>
    cases size with
    | byte => exact absurd rfl h
    | word => exact ⟨_, rfl⟩
    | long => exact ⟨_, rfl⟩
  | _ => exact ⟨_, rfl⟩

/-- A field can be read if the memory holds it and it is a byte where it has to be. -/
theorem exists_yields_iff (field : Field) :
    (∃ operand, field.Yields memory address operand) ↔
      memory.Holds address field.item.extent ∧
        (field.item = .byte → ∀ raw, memory.load .uint16 address = .ok raw → raw < 256) := by
  rw [extent_item]
  by_cases hitem : field.item = .byte
  · -- The only such field is an immediate byte.
    obtain rfl : field = .immediate .byte := by
      cases field with
      | immediate size =>
        cases size with
        | byte => rfl
        | _ => cases hitem
      | _ => cases hitem
    constructor
    · rintro ⟨operand, raw, hload, hoperand⟩
      refine ⟨Memory.holds_of_load hload, fun _ other hother => ?_⟩
      obtain rfl : raw = other := Except.ok.inj (hload.symm.trans hother)
      exact (immediate_byte_operand_isOk_iff (Memory.range_of_load_uint16 hload)).mp ⟨_, hoperand⟩
    · rintro ⟨hholds, hbyte⟩
      obtain ⟨raw, hload⟩ : ∃ raw, memory.load .uint16 address = .ok raw :=
        Memory.exists_load_iff.mpr hholds
      obtain ⟨operand, hoperand⟩ :=
        (immediate_byte_operand_isOk_iff (Memory.range_of_load_uint16 hload)).mpr
          (hbyte rfl raw hload)
      exact ⟨operand, raw, hload, hoperand⟩
  · constructor
    · rintro ⟨operand, hyields⟩
      exact ⟨holds_of_yields hyields, fun h => absurd h hitem⟩
    · rintro ⟨hholds, -⟩
      obtain ⟨raw, hload⟩ := Memory.exists_load_iff.mpr hholds
      obtain ⟨operand, hoperand⟩ := exists_operand hitem raw
      exact ⟨operand, raw, hload, hoperand⟩

end Field

/-! ## Slots -/

namespace Slot

variable {memory : Memory} {address : Int}

/-- The items of slots, unless one of the slots is invalid. -/
def outline : List Slot → Option (List Item)
  | [] => some []
  | .fixed _ :: slots => outline slots
  | .extension _ field :: slots => (outline slots).map (field.item :: ·)
  | .invalid _ :: _ => none

/-- Slots can be read exactly if none is invalid and their items can be read. -/
theorem exists_reads_iff {slots : List Slot} :
    (∃ operands, Reads memory address slots operands) ↔
      ∃ items, outline slots = some items ∧ Readable memory address items := by
  induction slots generalizing address with
  | nil => exact ⟨fun _ => ⟨[], rfl, trivial⟩, fun _ => ⟨[], .nil address⟩⟩
  | cons slot slots ih =>
    cases slot with
    | fixed operand =>
      constructor
      · rintro ⟨_, hreads⟩
        cases hreads with
        | fixed rest => exact ih.mp ⟨_, rest⟩
      · intro h
        obtain ⟨operands, hrest⟩ := ih.mpr h
        exact ⟨_, .fixed hrest⟩
    | extension key field =>
      constructor
      · rintro ⟨_, hreads⟩
        cases hreads with
        | extension head rest =>
          obtain ⟨items, hitems, hreadable⟩ := ih.mp ⟨_, rest⟩
          obtain ⟨hholds, hbyte⟩ := field.exists_yields_iff.mp ⟨_, head⟩
          refine ⟨field.item :: items, by rw [outline, hitems]; rfl, hholds, hbyte, ?_⟩
          rw [field.extent_item]
          exact hreadable
      · rintro ⟨_, houtline, hreadable⟩
        obtain ⟨items, hitems, rfl⟩ := Option.map_eq_some_iff.mp houtline
        obtain ⟨hholds, hbyte, hrest⟩ := hreadable
        rw [field.extent_item] at hrest
        obtain ⟨operand, hhead⟩ := field.exists_yields_iff.mpr ⟨hholds, hbyte⟩
        obtain ⟨operands, hreads⟩ := ih.mpr ⟨items, hitems, hrest⟩
        exact ⟨_, .extension hhead hreads⟩
    | invalid fault =>
      constructor
      · rintro ⟨_, hreads⟩
        cases hreads
      · rintro ⟨_, houtline, -⟩
        cases houtline

/-- The items of slots take as many bytes as the slots. -/
theorem total_of_outline {slots : List Slot} {items : List Item}
    (h : outline slots = some items) : Item.total items = extent slots := by
  induction slots generalizing items with
  | nil =>
    cases h
    rfl
  | cons slot slots ih =>
    cases slot with
    | fixed operand => exact ih h
    | extension key field =>
      obtain ⟨rest, hrest, rfl⟩ := Option.map_eq_some_iff.mp h
      show field.item.extent + Item.total rest = field.extent + extent slots
      rw [field.extent_item, ih hrest]
    | invalid fault => cases h

/-- The items of an effective address are those of its mode, which has to exist. -/
theorem outline_ofMode {mode reg : Int} (hmode : 0 ≤ mode ∧ mode < 8) (hreg : 0 ≤ reg ∧ reg < 8)
    (size : Size) (key : String) (slots : List Slot) :
    outline (ofMode mode reg (some size.code) key :: slots) =
      if Reserved mode reg then none
      else (outline slots).map (addressItems mode reg size ++ ·) := by
  have hkeep : (outline slots).map (([] : List Item) ++ ·) = outline slots := by
    simp
  by_cases hlow : mode < 5
  · -- The mode names a register.
    have hdirect : ∃ operand, ofMode mode reg (some size.code) key = .fixed operand := by
      obtain rfl | rfl | rfl | rfl | rfl :
        mode = 0 ∨ mode = 1 ∨ mode = 2 ∨ mode = 3 ∨ mode = 4 := by omega
      all_goals exact ⟨_, rfl⟩
    obtain ⟨operand, hslot⟩ := hdirect
    rw [hslot, if_neg (fun h => by have := h.1; omega), addressItems_of_lt hlow, hkeep]
    rfl
  · obtain rfl | rfl | rfl : mode = 5 ∨ mode = 6 ∨ mode = 7 := by omega
    · rw [if_neg (fun h => by have := h.1; omega)]
      rfl
    · rw [if_neg (fun h => by have := h.1; omega)]
      rfl
    · by_cases hreserved : 5 ≤ reg
      · rw [if_pos ⟨rfl, hreserved⟩]
        obtain rfl | rfl | rfl : reg = 5 ∨ reg = 6 ∨ reg = 7 := by omega
        all_goals rfl
      · rw [if_neg (fun h => hreserved h.2)]
        obtain rfl | rfl | rfl | rfl | rfl :
          reg = 0 ∨ reg = 1 ∨ reg = 2 ∨ reg = 3 ∨ reg = 4 := by omega
        all_goals cases size <;> rfl

end Slot

end Disasm68k
