import Disasm68k.Proofs.Tiling
import Disasm68k.Proofs.Writing

/-!
# Instructions in the other byte order

Each number of an instruction, that is the instruction word and each field of the layout, is read
by one load of exactly its bytes. So if the bytes of each of them are put in reverse and the memory
is read in the other byte order, then the same instruction is decoded. It does not do to reverse
the words of a field of two words one by one.

- `Interval`, `Instruction.intervals`: the bytes of each number of an instruction;
- `Memory.swapped`: the memory in the other byte order with some intervals in reverse;
- `Memory.Keeps`: an interval holds the same numbers in two memories;
- `decodeAt_of_keeps`: an instruction whose numbers are kept is decoded again;
- `Layout.pairwise_of_tiles`: the fields of an instruction do not overlap;
- `Disassembler.decode_in_other_order`: the results together.
-/

namespace Disasm68k

/-! ## Reversed bytes -/

/-- The other byte order. -/
def ByteOrder.other : ByteOrder → ByteOrder
  | big => little
  | little => big

/-- Bytes in reverse spell the same number in the other byte order. -/
theorem ByteOrder.assemble_other_reverse (order : ByteOrder) (bytes : List UInt8) :
    order.other.assemble bytes.reverse = order.assemble bytes := by
  cases order with
  | big => rfl
  | little =>
    show assembleLow bytes.reverse.reverse = assembleLow bytes
    rw [List.reverse_reverse]

/-- The `count` bytes from an address on. -/
structure Interval where
  start : Int
  count : Nat
deriving DecidableEq, Repr

namespace Interval

/-- The intervals have no byte in common. -/
def Apart (a b : Interval) : Prop :=
  a.start + a.count ≤ b.start ∨ b.start + b.count ≤ a.start

theorem Apart.symm {a b : Interval} (h : a.Apart b) : b.Apart a :=
  Or.symm h

/-- The intervals of consecutive words. -/
def wordsFrom (address : Int) : Nat → List Interval
  | 0 => []
  | count + 1 => ⟨address, 2⟩ :: wordsFrom (address + 2) count

end Interval

namespace Memory

variable {memory other : Memory} {interval : Interval} {intervals : List Interval}
  {bytes : List UInt8}

/-- The memory with the bytes of an interval in reverse, if it holds them. -/
def reversed (memory : Memory) (interval : Interval) : Memory :=
  match memory.slice? interval.start interval.count with
  | none => memory
  | some bytes => memory.write interval.start bytes.reverse

/-- The memory in the other byte order, with the bytes of each of the intervals in reverse. -/
def swapped (memory : Memory) (intervals : List Interval) : Memory :=
  { intervals.foldl reversed memory with order := memory.order.other }

/-- The bytes of an interval that is reversed stand in reverse. -/
theorem slice?_reversed (h : memory.slice? interval.start interval.count = some bytes) :
    (memory.reversed interval).slice? interval.start interval.count = some bytes.reverse := by
  have hlength : bytes.reverse.length = interval.count := by
    rw [List.length_reverse, length_of_slice? h]
  have hwrite : (memory.write interval.start bytes.reverse).slice? interval.start
      bytes.reverse.length = some bytes.reverse := slice?_write (by rw [hlength, h]; rfl)
  rw [hlength] at hwrite
  rw [reversed, h]
  exact hwrite

/-- The bytes of an interval apart from the one that is reversed stay as they are. -/
theorem slice?_reversed_of_apart {head : Interval} (hapart : head.Apart interval) :
    (memory.reversed head).slice? interval.start interval.count =
      memory.slice? interval.start interval.count := by
  unfold reversed
  cases h : memory.slice? head.start head.count with
  | none => rfl
  | some bytes =>
    have hlength : bytes.reverse.length = head.count := by
      rw [List.length_reverse, length_of_slice? h]
    refine slice?_write_of_apart (by rw [hlength, h]; rfl) ?_
    rw [hlength]
    exact hapart.symm

theorem slice?_foldl_of_apart (h : ∀ head ∈ intervals, head.Apart interval) :
    (intervals.foldl reversed memory).slice? interval.start interval.count =
      memory.slice? interval.start interval.count := by
  induction intervals generalizing memory with
  | nil => rfl
  | cons head intervals ih =>
    rw [List.forall_mem_cons] at h
    rw [List.foldl_cons, ih h.2, slice?_reversed_of_apart h.1]

/-- If intervals are apart from each other, the bytes of each of them stand in reverse in the
end: its own turn reverses them, and the other turns do not touch them. -/
theorem slice?_foldl_reversed (hapart : intervals.Pairwise Interval.Apart)
    (hmem : interval ∈ intervals)
    (h : memory.slice? interval.start interval.count = some bytes) :
    (intervals.foldl reversed memory).slice? interval.start interval.count =
      some bytes.reverse := by
  induction intervals generalizing memory with
  | nil => cases hmem
  | cons head intervals ih =>
    rw [List.pairwise_cons] at hapart
    rw [List.foldl_cons]
    rcases List.mem_cons.mp hmem with rfl | hlater
    · rw [slice?_foldl_of_apart fun later hin => (hapart.1 later hin).symm]
      exact slice?_reversed h
    · refine ih hapart.2 hlater ?_
      rw [slice?_reversed_of_apart (hapart.1 interval hlater)]
      exact h

/-! ## Numbers that are kept -/

/-- Whatever number of its size the first memory has in the interval, the second one has too. -/
def Keeps (memory other : Memory) (interval : Interval) : Prop :=
  ∀ (access : Access) (value : Int), access.byteCount = interval.count →
    memory.load access interval.start = .ok value → other.load access interval.start = .ok value

/-- **Bytes in reverse, read in the other byte order, are the same number.** -/
theorem keeps_swapped (hapart : intervals.Pairwise Interval.Apart) (hmem : interval ∈ intervals) :
    memory.Keeps (memory.swapped intervals) interval := by
  intro access value hcount hload
  unfold load at hload ⊢
  rw [hcount] at hload ⊢
  cases hslice : memory.slice? interval.start interval.count with
  | none => simp [hslice] at hload
  | some bytes =>
    have hswapped : (memory.swapped intervals).slice? interval.start interval.count =
        some bytes.reverse := by
      rw [← slice?_foldl_reversed hapart hmem hslice]
      exact slice?_congr fun _ _ => rfl
    rw [hslice] at hload
    rw [hswapped]
    show Except.ok (access.interpret (memory.order.other.assemble bytes.reverse)) = _
    rw [ByteOrder.assemble_other_reverse]
    exact hload

end Memory

/-! ## The numbers of an instruction -/

/-- The bytes of a field of an instruction at an address, if the entry tells its place. -/
def Layout.Entry.interval? (address : Int) (entry : Layout.Entry) : Option Interval :=
  match entry.offset?, entry.length? with
  | some offset, some length => some ⟨address + offset, length.toNat⟩
  | _, _ => none

/-- The bytes of each field of an instruction at an address. -/
def Layout.intervals (address : Int) (entries : List Layout.Entry) : List Interval :=
  entries.filterMap (Layout.Entry.interval? address)

/-- The bytes of each number of an instruction: the instruction word and the fields. -/
def Instruction.intervals (instruction : Instruction) : List Interval :=
  ⟨instruction.address, 2⟩ :: Layout.intervals instruction.address instruction.layout

variable {memory other : Memory} {address : Int} {instruction : Instruction}

theorem Field.interval?_entry (field : Field) (key : String) (address offset : Int) :
    (field.entry key offset).interval? address = some ⟨address + offset, field.extent⟩ := by
  simp [Layout.Entry.interval?]

/-- Slots have the same operands in a memory that keeps the number in each of their fields. -/
theorem Slot.reads_of_keeps {offset : Int} {slots : List Slot} {operands : List Operand}
    (hreads : Reads memory (address + offset) slots operands)
    (h : ∀ interval ∈ Layout.intervals address (entries offset slots),
      memory.Keeps other interval) : Reads other (address + offset) slots operands := by
  generalize hplace : address + offset = place at hreads ⊢
  induction hreads generalizing offset with
  | nil place => exact .nil place
  | fixed rest ih => exact .fixed (ih h hplace)
  | @extension place key field operand slots operands head rest ih =>
    subst hplace
    rw [Layout.intervals, entries, List.filterMap_cons_some (field.interval?_entry key _ _),
      List.forall_mem_cons] at h
    obtain ⟨raw, hload, hoperand⟩ := head
    have hfield : field.Yields other (address + offset) operand :=
      ⟨raw, h.1 field.access raw rfl hload, hoperand⟩
    exact .extension hfield (ih h.2 (Int.add_assoc ..).symm)

/-- An instruction is decoded again in a memory that keeps each of its numbers. -/
theorem decodeAt_of_keeps (hdecode : decodeAt memory address = .ok instruction)
    (h : ∀ interval ∈ instruction.intervals, memory.Keeps other interval) :
    decodeAt other address = .ok instruction := by
  obtain ⟨word, form, operands, hload, hform, hreads, rfl⟩ := decodeAt_eq_ok_iff.mp hdecode
  rw [Instruction.intervals, List.forall_mem_cons] at h
  refine decodeAt_eq_ok_iff.mpr ⟨word, form, operands, ?_, hform, ?_, rfl⟩
  · exact h.1 .uint16 word rfl hload
  · exact Slot.reads_of_keeps hreads h.2

/-! ## Fields do not overlap -/

namespace Layout

variable {start stop : Int} {entries : List Layout.Entry}

/-- The first field of a tiling is found at its place, and the others tile what is behind it. -/
theorem intervals_of_tiles (address : Int) {entry : Layout.Entry}
    (h : Tiles start (entry :: entries) stop) :
    ∃ length : Nat, entry.length? = some (length : Int) ∧ (length = 2 ∨ length = 4) ∧
      intervals address (entry :: entries) =
        ⟨address + start, length⟩ :: intervals address entries ∧
      Tiles (start + length) entries stop := by
  obtain ⟨hoffset, length, hlength, hsize, hrest⟩ := h
  obtain ⟨n, rfl⟩ : ∃ n : Nat, length = n := ⟨length.toNat, by omega⟩
  refine ⟨n, hlength, by omega, ?_, hrest⟩
  have hfirst : entry.interval? address = some ⟨address + start, n⟩ := by
    simp [Entry.interval?, hoffset, hlength]
  rw [intervals, List.filterMap_cons_some hfirst]
  rfl

theorem le_start_of_tiles (h : Tiles start entries stop) {interval : Interval}
    (hmem : interval ∈ intervals address entries) : address + start ≤ interval.start := by
  induction entries generalizing start with
  | nil => cases hmem
  | cons entry entries ih =>
    obtain ⟨length, -, -, hintervals, hrest⟩ := intervals_of_tiles address h
    rw [hintervals] at hmem
    rcases List.mem_cons.mp hmem with rfl | hlater
    · exact Int.le_refl _
    · have hle := ih hrest hlater
      omega

/-- The fields of a tiling do not overlap. -/
theorem pairwise_of_tiles (h : Tiles start entries stop) :
    (intervals address entries).Pairwise Interval.Apart := by
  induction entries generalizing start with
  | nil => exact .nil
  | cons entry entries ih =>
    obtain ⟨length, -, -, hintervals, hrest⟩ := intervals_of_tiles address h
    rw [hintervals]
    refine .cons ?_ (ih hrest)
    intro later hlater
    have hle := le_start_of_tiles hrest hlater
    left
    show address + start + length ≤ later.start
    omega

theorem le_of_tiles (h : Tiles start entries stop) : start ≤ stop := by
  induction entries generalizing start with
  | nil => exact Int.le_of_eq h
  | cons entry entries ih =>
    obtain ⟨-, length, -, hsize, hrest⟩ := h
    have hle := ih hrest
    omega

/-- A tiling without fields of four bytes consists of the words between its ends. -/
theorem intervals_eq_wordsFrom (h : Tiles start entries stop)
    (hshort : ∀ entry ∈ entries, entry.length? ≠ some 4) :
    intervals address entries =
      Interval.wordsFrom (address + start) ((stop - start) / 2).toNat := by
  induction entries generalizing start with
  | nil =>
    cases h
    rw [Int.sub_self]
    rfl
  | cons entry entries ih =>
    rw [List.forall_mem_cons] at hshort
    obtain ⟨length, hlength, hsize, hintervals, hrest⟩ := intervals_of_tiles address h
    obtain rfl : length = 2 := by
      refine hsize.resolve_right ?_
      rintro rfl
      exact hshort.1 hlength
    have hle := le_of_tiles hrest
    have hcount : ((stop - start) / 2).toNat = ((stop - (start + 2)) / 2).toNat + 1 := by omega
    rw [hintervals, ih hrest hshort.2, hcount, Interval.wordsFrom, Int.add_assoc]
    rfl

end Layout

/-- The numbers of an instruction do not overlap. -/
theorem Instruction.Spans.pairwise_intervals (h : instruction.Spans memory address) :
    instruction.intervals.Pairwise Interval.Apart := by
  refine .cons ?_ (Layout.pairwise_of_tiles h.tiles)
  intro later hlater
  exact .inl (Layout.le_start_of_tiles h.tiles hlater)

/-- If no field has four bytes, the numbers of an instruction are its words. -/
theorem Instruction.Spans.intervals_eq_words (h : instruction.Spans memory address)
    (hshort : ∀ entry ∈ instruction.layout, entry.length? ≠ some 4) :
    instruction.intervals =
      Interval.wordsFrom instruction.address (instruction.length / 2).toNat := by
  have htwo := h.two_le
  have hcount : (instruction.length / 2).toNat = ((instruction.length - 2) / 2).toNat + 1 := by
    omega
  rw [intervals, Layout.intervals_eq_wordsFrom h.tiles hshort, hcount, Interval.wordsFrom]

namespace Disassembler

/-- **An instruction is the same in both byte orders.** If an instruction is decoded at an
address, then it is decoded there again, the same in all its parts, once the memory is read in the
other byte order and the bytes of its instruction word and of each field of its layout stand in
reverse. If no field has four bytes, it is enough for this to swap the bytes of each word of the
instruction. -/
theorem decode_in_other_order (d : Disassembler) (address : Int) (instruction : Instruction)
    (h : (d.decode (some address)).1 = .ok instruction) :
    (decode { d with memory := d.memory.swapped instruction.intervals } (some address)).1 =
        .ok instruction ∧
      ((∀ entry ∈ instruction.layout, entry.length? ≠ some 4) →
        (decode { d with memory := d.memory.swapped (Interval.wordsFrom instruction.address
          (instruction.length / 2).toNat) } (some address)).1 = .ok instruction) := by
  rw [d.decode_fst] at h
  rw [decode_fst, decode_fst]
  have hspans := spans_of_decodeAt h
  have hdecode : decodeAt (d.memory.swapped instruction.intervals) address = .ok instruction :=
    decodeAt_of_keeps h fun _ => Memory.keeps_swapped hspans.pairwise_intervals
  refine ⟨hdecode, ?_⟩
  intro hshort
  rw [← hspans.intervals_eq_words hshort]
  exact hdecode

/-- A move of a long word has its immediate reversed over all four bytes. A branch has only
words, and they are swapped one by one. -/
theorem decode_in_other_order_of_long_move :
    (∃ move, ((ofMemory ⟨#[0x23, 0xFC, 0xFF, 0xFF, 0xFF, 0xFE, 0x00, 0x01, 0x86, 0xA0], 6,
          .big⟩).decode (some 6)).1 = .ok move ∧
        ((ofMemory ⟨#[0xFC, 0x23, 0xFE, 0xFF, 0xFF, 0xFF, 0xA0, 0x86, 0x01, 0x00], 6,
          .little⟩).decode (some 6)).1 = .ok move) ∧
      ∃ branch, ((ofMemory ⟨#[0x55, 0x00, 0x66, 0x80, 0xFF], 6, .little⟩).decode
          (some 7)).1 = .ok branch ∧
        ((ofMemory ⟨#[0x55, 0x66, 0x00, 0xFF, 0x80], 6, .big⟩).decode (some 7)).1 =
          .ok branch := by
  refine ⟨⟨_, rfl, ?_⟩, ⟨_, rfl, ?_⟩⟩
  · exact (decode_in_other_order (ofMemory ⟨#[0x23, 0xFC, 0xFF, 0xFF, 0xFF, 0xFE, 0x00, 0x01,
      0x86, 0xA0], 6, .big⟩) 6 _ rfl).1
  · exact (decode_in_other_order (ofMemory ⟨#[0x55, 0x00, 0x66, 0x80, 0xFF], 6, .little⟩) 7 _
      rfl).2 (by decide)

end Disassembler

end Disasm68k
