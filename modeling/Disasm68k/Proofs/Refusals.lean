import Disasm68k.Proofs.Acceptance
import Disasm68k.Proofs.Faults
import Disasm68k.Proofs.Regions
import Disasm68k.Proofs.Relocation

/-!
# Which words are refused, and for what reasons

A client of the decoder has to expect four kinds of faults, whatever word is decoded at whatever
cursor: every table that a rule looks into has an entry where the rule looks. Of the four kinds,
one belongs to the word alone. A word is unknown if it lies in a hole between the regions of the
rules; then nothing behind it is looked at. Only for a byte move to an address register the
source is read before the move is found to be unknown, so that something wrong with the source is
reported in its place.

- `Fault.decodingKinds`, `Expected`: the four kinds, and outcomes that keep to them;
- `decode_faults_as_expected`: all outcomes of decoding do;
- `Rule.holes`: the regions that a table leaves out;
- `Rule.first?_eq_none_iff`: the words without a rule are those in the holes;
- `exists_decodeAt_unknown_iff`: the words that are reported as unknown;
- `Disassembler.decode_unknown_iff`: the same for the disassembler, which never decodes such a
  word as anything else.
-/

namespace Disasm68k

open Opcode Encoding

/-! ## The kinds of refusals -/

/-- The kinds of faults that decoding an instruction can have. -/
def Fault.decodingKinds : List Fault.Kind :=
  [.unknownInstruction, .unsupportedMode, .malformedOperand, .bufferTooShort]

theorem Fault.kind_of_ofDecoding {fault : Fault} (h : fault.OfDecoding) :
    fault.kind ∈ decodingKinds := by
  cases fault with
  | unsupportedImmediateSize | missingOperandSize | pastRange | undefinedForm | unwritable =>
    cases h
  | _ => simp [kind, decodingKinds]

/-- The outcome is a result, or a fault of a kind that decoding can have. -/
def Expected {α : Type} (outcome : Except Fault α) : Prop :=
  (∃ result, outcome = .ok result) ∨
    ∃ fault, outcome = .error fault ∧ fault.kind ∈ Fault.decodingKinds

theorem expected_of_ofDecoding {α : Type} {outcome : Except Fault α}
    (h : ∀ fault, outcome = .error fault → fault.OfDecoding) : Expected outcome := by
  cases houtcome : outcome with
  | ok result => exact .inl ⟨result, rfl⟩
  | error fault => exact .inr ⟨fault, rfl, Fault.kind_of_ofDecoding (h fault houtcome)⟩

theorem expected_map {α β : Type} {outcome : Except Fault α} (h : Expected outcome) (f : α → β) :
    Expected (outcome.map f) := by
  rcases h with ⟨result, rfl⟩ | ⟨fault, rfl, hkind⟩
  · exact .inl ⟨f result, rfl⟩
  · exact .inr ⟨fault, rfl, hkind⟩

/-- **Decoding fails in four ways only.** Whatever integer stands for the word and whatever has
been read before, the outcome is an instruction or a fault of one of the four kinds. No other
fault comes up, because the group and the condition of a word are in the range of their tables,
and the rule that is chosen for a word finds an entry in every table it looks into. -/
theorem decode_faults_as_expected :
    (∀ (word : Int) (cursor : Cursor), Expected (Fetch.decodeWord word cursor).1) ∧
    (∀ cursor : Cursor, Expected (Fetch.decodeNext cursor).1) ∧
    (∀ (d : Disassembler) (address : Option Int), Expected (d.decode address).1 ∧
      Expected ((d.decode address).1.map Instruction.text)) ∧
    ∀ word : Int, (0 ≤ group word ∧ group word < 16) ∧
      (0 ≤ Opcode.cond word ∧ Opcode.cond word < 16) ∧
      ∀ rule, Rule.first? word = some rule → (rule.form? word).isSome := by
  refine ⟨?_, ?_, ?_, ?_⟩
  · intro word cursor
    exact expected_of_ofDecoding (Fetch.faultsIn_decodeWord word cursor)
  · intro cursor
    exact expected_of_ofDecoding (Fetch.faultsIn_decodeNext cursor)
  · intro d address
    have hexpected : Expected (d.decode address).1 := by
      rw [d.decode_fst]
      exact expected_of_ofDecoding fun fault => ofDecoding_of_decodeAt
    exact ⟨hexpected, expected_map hexpected _⟩
  · intro word
    exact ⟨group_range word, ⟨bits_nonneg .., bits_lt ..⟩, fun rule => Rule.isSome_form?_of_first?⟩

/-- A word of more than sixteen bits, whose size field names no size, has a rule with a form. -/
theorem decode_faults_as_expected_of_wide_word :
    Opcode.size? 0x54AD0 = none ∧ Rule.first? 0x54AD0 = some .tas ∧
      (Rule.tas.form? 0x54AD0).isSome ∧
      Expected (Fetch.decodeWord 0x54AD0 (Cursor.start ⟨#[], 0, .big⟩ 0)).1 := by
  obtain ⟨hword, -, -, htables⟩ := decode_faults_as_expected
  obtain ⟨-, -, hform⟩ := htables 0x54AD0
  exact ⟨rfl, rfl, hform .tas rfl, hword _ _⟩

/-! ## Holes between the rules -/

namespace Rule

/-- The regions of a group that no rule of its table reaches. -/
def holes (group : Int) : List Region :=
  match group with
  | 0 => [.operation [7] [0, 1, 2, 3], .operation [0, 1, 2, 3, 5, 6] [3]]
  | 4 => [.operation Region.any [4, 5], .operation [6] [0, 1], .operation [7] [0],
      .single 7 1 6 4, ⟨[7], [1], [7], Region.any⟩]
  | 7 => [.operation Region.any [4, 5, 6, 7]]
  | 10 => [.operation Region.any Region.any]
  | 14 => [.operation [4, 5, 6, 7] [3, 7]]
  | 15 => [.operation Region.any Region.any]
  | _ => []

theorem meets_holes (group : Int) :
    ∀ hole ∈ holes group, ∀ rule ∈ table group, rule.region.meets hole = false := by
  unfold holes
  split
  case h_7 => exact List.forall_mem_nil _
  all_goals decide +kernel

variable {word : Int}

/-- A word in a hole has no rule. -/
theorem first?_eq_none_of_hole {hole : Region} (hmem : hole ∈ holes (group word))
    (hhole : hole.Contains word) : first? word = none := by
  refine List.find?_eq_none.mpr ?_
  intro rule hrule haccepts
  have hmeets := Region.meets_of_contains (contains_of_accepts haccepts) hhole
  rw [meets_holes _ hole hmem rule hrule] at hmeets
  cases hmeets

/-- The holes of group 4. -/
theorem exists_hole_of_control
    (h : opmode word = 4 ∨ opmode word = 5 ∨ (rx word = 6 ∧ (opmode word = 0 ∨ opmode word = 1)) ∨
      (rx word = 7 ∧ opmode word = 0) ∨ word = 0x4E74 ∨ (0x4E78 ≤ word ∧ word ≤ 0x4E7F)) :
    ∃ hole ∈ holes 4, hole.Contains word := by
  have hrx := Region.mem_any (rx_range word)
  obtain h | h | ⟨h, hopmode⟩ | ⟨h, hopmode⟩ | rfl | ⟨hlow, hhigh⟩ := h
  · exact ⟨.operation Region.any [4, 5], by decide, Region.contains_operation hrx (by simp [h])⟩
  · exact ⟨.operation Region.any [4, 5], by decide, Region.contains_operation hrx (by simp [h])⟩
  · exact ⟨.operation [6] [0, 1], by decide,
      Region.contains_operation (by simp [h]) (by simpa using hopmode)⟩
  · exact ⟨.operation [7] [0], by decide,
      Region.contains_operation (by simp [h]) (by simp [hopmode])⟩
  · exact ⟨.single 7 1 6 4, by decide, by decide, by decide, by decide, by decide⟩
  · have hbits : bits word 3 13 = 0x9CF := by
      show word / 8 % 8192 = 0x9CF
      omega
    obtain ⟨hseven, hone, hmode⟩ := rx_opmode_mode_of_bits hbits
    exact ⟨⟨[7], [1], [7], Region.any⟩, by decide, List.mem_singleton.mpr hseven,
      List.mem_singleton.mpr hone, List.mem_singleton.mpr hmode, Region.mem_any (reg_range word)⟩

/-- The unassigned words lie in the holes, but for byte moves to address registers. -/
theorem exists_hole_of_unassigned (h : Unassigned word) (hmove : ¬ IsByteAddressMove word) :
    ∃ hole ∈ holes (group word), hole.Contains word := by
  have hrx := Region.mem_any (rx_range word)
  have hopmode := Region.mem_any (opmode_range word)
  obtain hg | hg | ⟨hg, hbit8⟩ | ⟨hg, hbit8, hop⟩ | hbyte | ⟨hg, hcontrol⟩ | ⟨hg, hcode, hhigh⟩ := h
  · rw [hg]
    exact ⟨.operation Region.any Region.any, by decide, Region.contains_operation hrx hopmode⟩
  · rw [hg]
    exact ⟨.operation Region.any Region.any, by decide, Region.contains_operation hrx hopmode⟩
  · rw [hg]
    exact ⟨.operation Region.any [4, 5, 6, 7], by decide,
      Region.contains_operation hrx (opmode_of_bit8_eq_one hbit8)⟩
  · rw [hg]
    rcases hop with hseven | ⟨hmem, hcode⟩
    · exact ⟨.operation [7] [0, 1, 2, 3], by decide,
        Region.contains_operation (by simp [hseven]) (opmode_of_bit8_eq_zero hbit8)⟩
    · rw [bit8_eq] at hbit8
      rw [sizeCode_eq] at hcode
      exact ⟨.operation [0, 1, 2, 3, 5, 6] [3], by decide, Region.contains_operation hmem
        (Region.mem_of_range (fun n => n / 4 = 0 ∧ n % 4 = 3) (opmode_range word) ⟨hbit8, hcode⟩
          (by decide))⟩
  · exact absurd hbyte hmove
  · rw [hg]
    exact exists_hole_of_control hcontrol
  · rw [hg]
    exact ⟨.operation [4, 5, 6, 7] [3, 7], by decide,
      Region.contains_operation (Region.mem_of_range (4 ≤ ·) (rx_range word) hhigh (by decide))
        (opmode_of_sizeCode_eq_three hcode)⟩

/-- **The words without a rule** are the unassigned ones, but for byte moves to address
registers. -/
theorem first?_eq_none_iff (hrange : 0 ≤ word ∧ word < 0x10000) :
    first? word = none ↔ Unassigned word ∧ ¬ IsByteAddressMove word := by
  constructor
  · intro hnone
    refine ⟨unassigned_of_first? hrange hnone, ?_⟩
    rintro ⟨hgroup, -⟩
    rw [first?, hgroup] at hnone
    cases hnone
  · rintro ⟨hunassigned, hmove⟩
    obtain ⟨hole, hmem, hhole⟩ := exists_hole_of_unassigned hunassigned hmove
    exact first?_eq_none_of_hole hmem hhole

end Rule

/-! ## Unknown words -/

variable {memory : Memory} {address word : Int}

/-- The source of a byte move can be read: its addressing mode exists, and so do the extension
words of the mode, behind the word at the address. -/
def Encoding.SourceReadable (memory : Memory) (address word : Int) : Prop :=
  ¬ Reserved (mode word) (reg word) ∧
    Readable memory (address + 2) (addressItems (mode word) (reg word) .byte)

namespace Slot

/-- What is unknown is so because of a slot that is invalid, not because of what is read. -/
theorem mem_of_fails {slots : List Slot} {fault : Fault} (h : Fails memory address slots fault)
    (hkind : fault.kind = .unknownInstruction) : .invalid fault ∈ slots := by
  induction h with
  | invalid => exact List.mem_cons_self
  | unreadable load =>
    obtain ⟨-, rfl⟩ := Memory.load_eq_error_iff.mp load
    cases hkind
  | refused load refuses =>
    rw [Field.eq_highByteSet_of_operand refuses] at hkind
    cases hkind
  | afterFixed rest ih => exact List.mem_cons_of_mem _ (ih hkind)
  | afterField head rest ih => exact List.mem_cons_of_mem _ (ih hkind)

/-- No effective address is unknown. -/
theorem ofMode_ne_invalid {mode reg : Int} {size : Size} {key : String} {fault : Fault}
    (hkind : fault.kind = .unknownInstruction) :
    ofMode mode reg (some size.code) key ≠ .invalid fault := by
  intro h
  rw [eq_unsupportedMode_of_ofMode h] at hkind
  cases hkind

/-- The only slot that is unknown is the destination of a byte move to an address register. -/
theorem isByteAddressMove_of_occurs {fault : Fault} (h : Occurs word (.invalid fault))
    (hkind : fault.kind = .unknownInstruction) : IsByteAddressMove word := by
  generalize hslot : Slot.invalid fault = slot at h
  cases h with
  | address size key => exact absurd hslot.symm (ofMode_ne_invalid hkind)
  | destination size => exact absurd hslot.symm (ofMode_ne_invalid hkind)
  | refused hmove => exact hmove
  | _ => cases hslot

/-- The source of a byte move is a slot that can be read. -/
theorem exists_reads_source_iff :
    (∃ operands, Reads memory (address + 2) [ea word .byte "src"] operands) ↔
      SourceReadable memory address word := by
  rw [exists_reads_iff, outline_ea]
  unfold SourceReadable
  by_cases hreserved : Reserved (mode word) (reg word)
  · simp [hreserved]
  · simp [hreserved, outline]

end Slot

/-- The form of a byte move to an address register has its source before what refuses it. -/
theorem Opcode.form_of_isByteAddressMove (h : IsByteAddressMove word) (address : Int) :
    Opcode.form word address = .ok (.ofSlots "MOVEA" (some .byte)
      ([ea word .byte "src"] ++ [.invalid (.byteAddressMove word)])) := by
  obtain ⟨hgroup, hopmode⟩ := h
  have hfirst : Rule.first? word = some .move := by
    rw [Rule.first?, hgroup]
    rfl
  refine Rule.form_eq_ok_iff.mpr ⟨.move, hfirst, ?_⟩
  simp [Rule.form?, moveForm?, moveSize?, hgroup, hopmode]

/-- A byte move to an address register is reported as unknown if its source can be read. -/
theorem exists_fails_unknown_iff :
    (∃ fault, Slot.Fails memory (address + 2)
        ([ea word .byte "src"] ++ [.invalid (.byteAddressMove word)]) fault ∧
      fault.kind = .unknownInstruction) ↔ SourceReadable memory address word := by
  rw [← Slot.exists_reads_source_iff]
  constructor
  · rintro ⟨fault, hfails, hkind⟩
    rcases Slot.fails_append_invalid_iff.mp hfails with hsource | ⟨hreads, -⟩
    · have hmem := List.mem_singleton.mp (Slot.mem_of_fails hsource hkind)
      exact absurd hmem.symm (Slot.ofMode_ne_invalid hkind)
    · exact hreads
  · intro hreads
    exact ⟨_, Slot.fails_append_invalid_iff.mpr (.inr ⟨hreads, rfl⟩), rfl⟩

/-- **The words that are reported as unknown** are the unassigned ones; a byte move to an address
register is among them only if its source can be read. -/
theorem exists_decodeAt_unknown_iff (hword : memory.load .uint16 address = .ok word) :
    (∃ fault, decodeAt memory address = .error fault ∧ fault.kind = .unknownInstruction) ↔
      Unassigned word ∧ (IsByteAddressMove word → SourceReadable memory address word) := by
  have hrange := Memory.range_of_load_uint16 hword
  by_cases hmove : IsByteAddressMove word
  · have hform := Opcode.form_of_isByteAddressMove hmove address
    constructor
    · rintro ⟨fault, hdecode, hkind⟩
      refine ⟨.inr (.inr (.inr (.inr (.inl hmove)))), fun _ => ?_⟩
      refine exists_fails_unknown_iff.mp ⟨fault, ?_, hkind⟩
      rcases (decodeAt_eq_error_iff_of_load hword).mp hdecode with hnone | ⟨form, hform', hfails⟩
      · rw [hform] at hnone
        cases hnone
      · obtain rfl := Except.ok.inj (hform.symm.trans hform')
        exact hfails
    · rintro ⟨-, hsource⟩
      obtain ⟨fault, hfails, hkind⟩ := exists_fails_unknown_iff.mpr (hsource hmove)
      exact ⟨fault, (decodeAt_eq_error_iff_of_load hword).mpr (.inr ⟨_, hform, hfails⟩), hkind⟩
  · constructor
    · rintro ⟨fault, hdecode, hkind⟩
      refine ⟨?_, fun h => absurd h hmove⟩
      rcases (decodeAt_eq_error_iff_of_load hword).mp hdecode with hnone | ⟨form, hform, hfails⟩
      · exact Rule.unassigned_of_first? hrange (Rule.form_eq_error hnone).1
      · -- A word with a form has a slot that is unknown only if it is a byte move.
        have hslots := Slot.occurs_of_planned (Opcode.planned_slots_of_form hform)
        have hoccurs := hslots _ (Slot.mem_of_fails hfails hkind)
        exact absurd (Slot.isByteAddressMove_of_occurs hoccurs hkind) hmove
    · rintro ⟨hunassigned, -⟩
      have hnone := (Rule.first?_eq_none_iff hrange).mpr ⟨hunassigned, hmove⟩
      have hform := Opcode.form_of_first?_eq_none hnone address
      exact ⟨_, (decodeAt_eq_error_iff_of_load hword).mpr (.inl hform), rfl⟩

namespace Disassembler

/-- **Unknown words.** At an address whose word can be read, decoding reports an unknown
instruction exactly if the word is unassigned, whatever stands behind it, with one exception: a
byte move to an address register is reported as unknown only if its source can be read, and for
what is wrong with the source otherwise. No unassigned word is decoded. -/
theorem decode_unknown_iff (d : Disassembler) (address word : Int)
    (hword : d.memory.load .uint16 address = .ok word) :
    ((∃ fault, (d.decode (some address)).1 = .error fault ∧ fault.kind = .unknownInstruction) ↔
      Unassigned word ∧ (IsByteAddressMove word → SourceReadable d.memory address word)) ∧
    (Unassigned word → ∃ fault, (d.decode (some address)).1 = .error fault ∧
      fault.kind ∈ Fault.decodingKinds) := by
  rw [d.decode_fst]
  refine ⟨exists_decodeAt_unknown_iff hword, ?_⟩
  intro hunassigned
  have hexpected : Expected (decodeAt d.memory address) :=
    expected_of_ofDecoding fun fault => ofDecoding_of_decodeAt
  rcases hexpected with hdecoded | hfault
  · obtain ⟨items, hitems, -⟩ := (exists_decodeAt_iff hword).mp hdecoded
    exact absurd hunassigned (items?_eq_some_iff.mp hitems).1
  · exact hfault

/-- A byte move with a source that can be read, and a word in a hole with nothing behind it. -/
theorem decode_unknown_byte_move_and_hole :
    (∃ fault, ((ofMemory ⟨#[0x12, 0x78, 0x80, 0x00], 0, .big⟩).decode (some 0)).1 = .error fault ∧
      fault.kind = .unknownInstruction) ∧
    ∃ fault, ((ofMemory ⟨#[0xF9, 0x00], 7, .little⟩).decode (some 7)).1 = .error fault ∧
      fault.kind = .unknownInstruction := by
  obtain ⟨hmove, -⟩ :=
    decode_unknown_iff (ofMemory ⟨#[0x12, 0x78, 0x80, 0x00], 0, .big⟩) 0 0x1278 rfl
  obtain ⟨hhole, -⟩ := decode_unknown_iff (ofMemory ⟨#[0xF9, 0x00], 7, .little⟩) 7 0x00F9 rfl
  refine ⟨hmove.mpr ⟨by decide, fun _ => ⟨by decide, by decide, nofun, trivial⟩⟩, ?_⟩
  exact hhole.mpr ⟨by decide, fun h => absurd h (by decide)⟩

/-- A byte move to an address register that is cut off in its source is not reported as unknown,
though its word is unassigned. -/
theorem decode_of_cut_byte_move :
    ¬ ∀ (d : Disassembler) (address word : Int), d.memory.load .uint16 address = .ok word →
      ((∃ fault, (d.decode (some address)).1 = .error fault ∧ fault.kind = .unknownInstruction) ↔
        Unassigned word) := by
  intro h
  obtain ⟨fault, hdecode, hkind⟩ :=
    (h (ofMemory ⟨#[0x10, 0x78], 0, .big⟩) 0 0x1078 rfl).mpr (by decide)
  obtain rfl : Fault.outsideMemory 2 2 0 2 = fault := Except.error.inj hdecode
  cases hkind

end Disassembler

end Disasm68k
