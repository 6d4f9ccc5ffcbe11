import Disasm68k.Proofs.Failure
import Disasm68k.Proofs.Faults
import Disasm68k.Proofs.Outline

/-!
# Resolving an effective address

A mode, a register number and a size code may be any integers when a client asks a cursor for an
operand directly. Most of them name nothing, and the bytes that the others need may be missing or
hold no operand. This module says what comes of every request: which operand it gives and what it
leaves in the layout, or which of six kinds of faults it has, and where the cursor stands then. The
sixth kind is the fault of a message: a refusal names the numbers that it refuses, and numbers of
too many digits cannot be written.

- `Slot.Unsupported`, `Slot.needed`: the numbers that name no mode, and the bytes that the others
  need;
- `Slot.Resolves`: the slots that numbers of any kind may have;
- `Cursor.Refuses`: when a request fails with a fault of a kind;
- `Cursor.Resolved`: what a request that succeeds gives and leaves behind;
- `Fetch.address_outcome`: the two together for every request.
-/

namespace Disasm68k

/-! ## Which numbers name an operand -/

namespace Slot

/-- The mode and the register number name no addressing mode. -/
def Unsupported (mode reg : Int) : Prop :=
  ¬ (0 ≤ mode ∧ mode ≤ 7) ∨ mode = 7 ∧ ¬ (0 ≤ reg ∧ reg ≤ 4)

/-- The number of bytes that an operand needs after the instruction word. -/
def needed (mode reg : Int) (code : Option Int) : Nat :=
  if mode = 5 ∨ mode = 6 then 2
  else if mode = 7 then
    if reg = 1 then 4
    else if reg = 4 then
      if code = some 0 ∨ code = some 1 then 2 else if code = some 2 then 4 else 0
    else if reg = 0 ∨ reg = 2 ∨ reg = 3 then 2
    else 0
  else 0

end Slot

/-- The field that holds the operand of a mode, a register number and a size code. -/
inductive Field.OfMode : Int → Int → Option Int → Field → Prop where
  | addrDisp {reg : Int} {code : Option Int} : OfMode 5 reg code (.addrDisp reg)
  | addrIndex {reg : Int} {code : Option Int} : OfMode 6 reg code (.addrIndex reg)
  | absShort {code : Option Int} : OfMode 7 0 code .absShort
  | absLong {code : Option Int} : OfMode 7 1 code .absLong
  | pcDisp {code : Option Int} : OfMode 7 2 code .pcDisp
  | pcIndex {code : Option Int} : OfMode 7 3 code .pcIndex
  | immediate {size : Size} : OfMode 7 4 (some size.code) (.immediate size)

namespace Slot

/-- The slots that a mode, a register number and a size code may have. -/
inductive Resolves (mode reg : Int) (code : Option Int) (key : String) : Slot → Prop where
  | direct (address : EffectiveAddress) (hmode : address.mode = mode)
      (hreg : address.register = reg) (hext : address.extBytes = 0) (hlow : 0 ≤ mode ∧ mode < 5) :
      Resolves mode reg code key (.fixed (.ea address))
  | extended (field : Field) (hfield : Field.OfMode mode reg code field) :
      Resolves mode reg code key (.extension key field)
  | sizeless (hmode : mode = 7) (hreg : reg = 4) (hcode : code = none) :
      Resolves mode reg code key (.invalid .missingOperandSize)
  | missized (n : Int) (hmode : mode = 7) (hreg : reg = 4) (hcode : code = some n)
      (hrange : ¬ (0 ≤ n ∧ n ≤ 2)) :
      Resolves mode reg code key (.invalid (.unsupportedImmediateSize (some n)))
  | unsupported (h : Unsupported mode reg) :
      Resolves mode reg code key (.invalid (.unsupportedMode mode reg))

theorem resolves_ofImmediate (code : Option Int) (key : String) :
    Resolves 7 4 code key (ofImmediate code key) := by
  cases code with
  | none => exact .sizeless rfl rfl rfl
  | some n =>
    simp only [ofImmediate]
    split
    · next size hsize =>
      rw [Size.ofCode?_eq_some_iff] at hsize
      subst hsize
      exact .extended _ .immediate
    · next hsize =>
      refine .missized n rfl rfl rfl fun hrange => ?_
      obtain rfl | rfl | rfl : n = 0 ∨ n = 1 ∨ n = 2 := by omega
      all_goals cases hsize

theorem resolves_ofMode (mode reg : Int) (code : Option Int) (key : String) :
    Resolves mode reg code key (ofMode mode reg code key) := by
  unfold ofMode
  -- five modes that name a register, two that add to one, then mode seven
  iterate 5
    refine iteInduction (fun hmode => .direct _ hmode.symm rfl rfl (by omega)) fun _ => ?_
  iterate 2
    refine iteInduction (fun hmode => ?_) fun _ => ?_
    · subst hmode
      exact .extended _ (by constructor)
  have hlast : 0 ≤ mode ∧ mode ≤ 7 → mode = 7 := by omega
  iterate 4
    refine iteInduction (fun hmode => ?_) fun _ => ?_
    · obtain ⟨rfl, rfl⟩ := hmode
      exact .extended _ (by constructor)
  refine iteInduction (fun hmode => ?_) fun _ => ?_
  · obtain ⟨rfl, rfl⟩ := hmode
    exact resolves_ofImmediate code key
  · refine .unsupported ?_
    unfold Unsupported
    by_cases hmode : 0 ≤ mode ∧ mode ≤ 7
    · obtain rfl := hlast hmode
      omega
    · exact .inl hmode

end Slot

/-! ## Fields -/

namespace Field

variable {mode reg : Int} {code : Option Int} {field : Field} {cursor : Cursor} {fault : Fault}

/-- A number read from a field stands for no operand only if it is to be a byte and is larger. -/
theorem operand_eq_error_iff {raw : Int} :
    field.operand raw = .error fault ↔
      field = .immediate .byte ∧ bits raw 8 8 ≠ 0 ∧ fault = .highByteSet raw := by
  cases field with
  | immediate size =>
    cases size with
    | byte =>
      by_cases hhigh : bits raw 8 8 = 0
      · simp [operand, immediateValue, hhigh]
      · simp [operand, immediateValue, hhigh, eq_comm]
    | word => simp [operand, immediateValue]
    | long => simp [operand, immediateValue]
  | _ => simp [operand]

/-- A field that the memory does not hold leaves the cursor where it is. -/
theorem fetch_of_unreadable {key : String}
    (h : cursor.memory.load field.access cursor.position = .error fault) :
    field.fetch key cursor = (.error fault, cursor) :=
  fetchAs_of_unreadable h

/-- A number that stands for no operand has been read, but nothing is noted of it. -/
theorem fetch_of_refused {key : String} {raw : Int}
    (hload : cursor.memory.load field.access cursor.position = .ok raw)
    (hraw : field.operand raw = .error fault) :
    field.fetch key cursor = (.error fault, { cursor with idx := cursor.idx + field.extent }) :=
  fetchAs_of_refused hload hraw

theorem needed_of_ofMode (h : OfMode mode reg code field) :
    Slot.needed mode reg code = field.extent := by
  cases h with
  | @immediate size => cases size <;> rfl
  | _ => rfl

theorem supported_of_ofMode (h : OfMode mode reg code field) : ¬ Slot.Unsupported mode reg := by
  unfold Slot.Unsupported
  cases h <;> omega

/-- Only an immediate operand looks at the size code. -/
theorem sized_of_ofMode (h : OfMode mode reg code field) (hmode : mode = 7) (hreg : reg = 4) :
    ∃ size : Size, code = some size.code ∧ field = .immediate size := by
  cases h with
  | @immediate size => exact ⟨size, rfl, rfl⟩
  | _ => omega

/-- The size code of an immediate operand that is read is in range. -/
theorem not_missized_of_ofMode (h : OfMode mode reg code field) (hmode : mode = 7) (hreg : reg = 4)
    {n : Int} (hcode : code = some n) : ¬ ¬ (0 ≤ n ∧ n ≤ 2) := by
  obtain ⟨size, hsame, -⟩ := sized_of_ofMode h hmode hreg
  obtain rfl : n = size.code := Option.some.inj (hcode.symm.trans hsame)
  cases size <;> decide

/-- The number in the field of a mode and a register number stands for an operand of just that
mode and that register, which takes the bytes of the field. -/
theorem address_of_operand (h : OfMode mode reg code field) {raw : Int} {operand : Operand}
    (hraw : field.operand raw = .ok operand) :
    ∃ address : EffectiveAddress, operand = .ea address ∧ address.mode = mode ∧
      address.register = reg ∧ address.extBytes = field.extent := by
  cases h with
  | @immediate size =>
    simp only [Field.operand] at hraw
    split at hraw
    · cases hraw
      refine ⟨_, rfl, rfl, rfl, ?_⟩
      cases size <;> rfl
    · cases hraw
  | _ =>
    cases hraw
    exact ⟨_, rfl, rfl, rfl, rfl⟩

end Field

/-! ## Outcomes -/

namespace Cursor

variable {mode reg : Int} {code : Option Int} {cursor : Cursor}

/-- At the cursor, the request fails with a fault of the kind. -/
def Refuses (cursor : Cursor) (mode reg : Int) (code : Option Int) : Fault.Kind → Prop
  | .unsupportedMode =>
    Slot.Unsupported mode reg ∧ ¬ Numeral.TooLong mode ∧ ¬ Numeral.TooLong reg
  | .missingOperandSize => mode = 7 ∧ reg = 4 ∧ code = none
  | .unsupportedImmediateSize =>
    mode = 7 ∧ reg = 4 ∧ ∃ n, code = some n ∧ ¬ (0 ≤ n ∧ n ≤ 2) ∧ ¬ Numeral.TooLong n
  | .bufferTooShort =>
    0 < Slot.needed mode reg code ∧
      ¬ cursor.memory.Holds cursor.position (Slot.needed mode reg code)
  | .malformedOperand =>
    mode = 7 ∧ reg = 4 ∧ code = some 0 ∧
      ∃ raw, cursor.memory.load .uint16 cursor.position = .ok raw ∧ bits raw 8 8 ≠ 0
  | .unwritable =>
    Slot.Unsupported mode reg ∧ (Numeral.TooLong mode ∨ Numeral.TooLong reg) ∨
      mode = 7 ∧ reg = 4 ∧ ∃ n, code = some n ∧ ¬ (0 ≤ n ∧ n ≤ 2) ∧ Numeral.TooLong n
  | .unknownInstruction => False
  | .undefinedForm => False

/-- The request has given the address and has left the cursor behind its bytes. -/
structure Resolved (cursor : Cursor) (mode reg : Int) (key : String) (address : EffectiveAddress)
    (after : Cursor) : Prop where
  mode_eq : address.mode = mode
  register_eq : address.register = reg
  memory_eq : after.memory = cursor.memory
  pc_eq : after.pc = cursor.pc
  idx_eq : after.idx = cursor.idx + address.extBytes
  /-- An address without bytes of its own leaves nothing in the layout. -/
  layout_of_direct : address.extBytes = 0 → after.layout = cursor.layout
  /-- Any other leaves one entry that tells where its bytes are. -/
  layout_of_extended : address.extBytes ≠ 0 →
    ∃ entry : Layout.Entry, after.layout = cursor.layout ++ [entry] ∧ entry.key = key ∧
      entry.offset? = some cursor.idx ∧ entry.length? = some (address.extBytes : Int)

theorem resolved_direct {address : EffectiveAddress} {key : String} (hmode : address.mode = mode)
    (hreg : address.register = reg) (hext : address.extBytes = 0) :
    cursor.Resolved mode reg key address cursor where
  mode_eq := hmode
  register_eq := hreg
  memory_eq := rfl
  pc_eq := rfl
  idx_eq := by rw [hext]; exact (Int.add_zero _).symm
  layout_of_direct := fun _ => rfl
  layout_of_extended := fun hne => absurd hext hne

theorem resolved_extended {address : EffectiveAddress} {key : String} {field : Field}
    (hmode : address.mode = mode) (hreg : address.register = reg)
    (hext : address.extBytes = field.extent) :
    cursor.Resolved mode reg key address
      { cursor with
        idx := cursor.idx + field.extent
        layout := cursor.layout ++ [field.entry key cursor.idx] } where
  mode_eq := hmode
  register_eq := hreg
  memory_eq := rfl
  pc_eq := rfl
  idx_eq := by rw [hext]
  layout_of_direct := by
    intro hzero
    have hsize := field.extent_eq_two_or_four
    omega
  layout_of_extended := by
    intro _
    rw [hext]
    exact ⟨_, rfl, rfl, field.offset?_entry key cursor.idx, field.length?_entry key cursor.idx⟩

/-! ### The kinds of faults -/

/-- A mode that names a register is never refused. -/
theorem not_refuses_of_low (hlow : 0 ≤ mode ∧ mode < 5) (kind : Fault.Kind) :
    ¬ cursor.Refuses mode reg code kind := by
  have hneeded : Slot.needed mode reg code = 0 := by
    unfold Slot.needed
    rw [if_neg (by omega), if_neg (by omega)]
  have hsupported : ¬ Slot.Unsupported mode reg := by
    unfold Slot.Unsupported
    omega
  intro hrefuses
  cases kind with
  | unsupportedMode => exact hsupported hrefuses.1
  | unwritable =>
    rcases hrefuses with hrefuses | hrefuses
    · exact hsupported hrefuses.1
    · have hmode : mode = 7 := hrefuses.1
      omega
  | missingOperandSize | unsupportedImmediateSize | malformedOperand =>
    have hmode : mode = 7 := hrefuses.1
    omega
  | bufferTooShort =>
    have hpos : 0 < Slot.needed mode reg code := hrefuses.1
    omega
  | unknownInstruction | undefinedForm => exact hrefuses

/-- The operand of a field is refused for want of bytes, or for the high byte of a byte. -/
theorem refuses_iff_of_ofMode {field : Field} (h : Field.OfMode mode reg code field)
    (kind : Fault.Kind) :
    cursor.Refuses mode reg code kind ↔
      kind = .bufferTooShort ∧ ¬ cursor.memory.Holds cursor.position field.extent ∨
      kind = .malformedOperand ∧ field = .immediate .byte ∧
        ∃ raw, cursor.memory.load .uint16 cursor.position = .ok raw ∧ bits raw 8 8 ≠ 0 := by
  have hneeded := Field.needed_of_ofMode h
  have hsize := field.extent_eq_two_or_four
  cases kind with
  | bufferTooShort =>
    have hpos : 0 < field.extent := by omega
    simp [Refuses, hneeded, hpos]
  | malformedOperand =>
    simp only [Refuses, reduceCtorEq, false_and, true_and, false_or]
    constructor
    · rintro ⟨hmode, hreg, hcode, hraw⟩
      obtain ⟨size, hsame, rfl⟩ := Field.sized_of_ofMode h hmode hreg
      obtain rfl : size = .byte := by
        rw [hcode] at hsame
        cases size with
        | byte => rfl
        | word | long => cases hsame
      exact ⟨rfl, hraw⟩
    · rintro ⟨rfl, hraw⟩
      cases h with
      | immediate => exact ⟨rfl, rfl, rfl, hraw⟩
  | missingOperandSize =>
    simp only [Refuses, reduceCtorEq, false_and, or_self, iff_false]
    rintro ⟨hmode, hreg, hcode⟩
    obtain ⟨size, hsame, -⟩ := Field.sized_of_ofMode h hmode hreg
    rw [hcode] at hsame
    cases hsame
  | unsupportedImmediateSize =>
    simp only [Refuses, reduceCtorEq, false_and, or_self, iff_false]
    rintro ⟨hmode, hreg, n, hcode, hrange, -⟩
    exact Field.not_missized_of_ofMode h hmode hreg hcode hrange
  | unsupportedMode =>
    simp only [Refuses, reduceCtorEq, false_and, or_self, iff_false]
    rintro ⟨hunsupported, -⟩
    exact Field.supported_of_ofMode h hunsupported
  | unwritable =>
    simp only [Refuses, reduceCtorEq, false_and, or_self, iff_false]
    rintro (⟨hunsupported, -⟩ | ⟨hmode, hreg, n, hcode, hrange, -⟩)
    · exact Field.supported_of_ofMode h hunsupported
    · exact Field.not_missized_of_ofMode h hmode hreg hcode hrange
  | unknownInstruction | undefinedForm => simp [Refuses]

theorem refuses_iff_of_sizeless (kind : Fault.Kind) :
    cursor.Refuses 7 4 none kind ↔ kind = .missingOperandSize := by
  cases kind <;> simp [Refuses, Slot.Unsupported, Slot.needed]

theorem refuses_iff_of_missized {n : Int} (hrange : ¬ (0 ≤ n ∧ n ≤ 2)) (kind : Fault.Kind) :
    cursor.Refuses 7 4 (some n) kind ↔
      kind = (Fault.unsupportedImmediateSize (some n)).worded.kind := by
  have hzero : n ≠ 0 := by omega
  have hneeded : Slot.needed 7 4 (some n) = 0 := by
    have hcodes : ¬ (n = 0 ∨ n = 1) ∧ n ≠ 2 := by omega
    simp [Slot.needed, hcodes]
  by_cases hlong : Numeral.TooLong n
  · rw [Fault.worded_eq_unwritable (List.mem_singleton_self n) hlong]
    cases kind with
    | unwritable => exact ⟨fun _ => rfl, fun _ => .inr ⟨rfl, rfl, n, rfl, hrange, hlong⟩⟩
    | unsupportedImmediateSize => simp [Refuses, Fault.kind, hlong]
    | _ => simp [Refuses, Slot.Unsupported, Fault.kind, hneeded, hzero]
  · rw [Fault.worded_eq_self (by simpa [Fault.decimals] using hlong)]
    cases kind with
    | unsupportedImmediateSize => exact ⟨fun _ => rfl, fun _ => ⟨rfl, rfl, n, rfl, hrange, hlong⟩⟩
    | unwritable => simp [Refuses, Slot.Unsupported, Fault.kind, hlong]
    | _ => simp [Refuses, Slot.Unsupported, Fault.kind, hneeded, hzero]

theorem refuses_iff_of_unsupported (h : Slot.Unsupported mode reg) (kind : Fault.Kind) :
    cursor.Refuses mode reg code kind ↔ kind = (Fault.unsupportedMode mode reg).worded.kind := by
  have himmediate : ¬ (mode = 7 ∧ reg = 4) := by
    unfold Slot.Unsupported at h
    omega
  have hneeded : Slot.needed mode reg code = 0 := by
    unfold Slot.Unsupported at h
    unfold Slot.needed
    rw [if_neg (by omega)]
    by_cases hmode : mode = 7
    · rw [if_pos hmode, if_neg (by omega), if_neg (by omega), if_neg (by omega)]
    · rw [if_neg hmode]
  by_cases hlong : Numeral.TooLong mode ∨ Numeral.TooLong reg
  · have hworded : (Fault.unsupportedMode mode reg).worded = .unwritable := by
      rcases hlong with hlong | hlong
      · exact Fault.worded_eq_unwritable List.mem_cons_self hlong
      · exact Fault.worded_eq_unwritable (List.mem_cons_of_mem _ List.mem_cons_self) hlong
    rw [hworded]
    cases kind with
    | unwritable => exact ⟨fun _ => rfl, fun _ => .inl ⟨h, hlong⟩⟩
    | unsupportedMode =>
      refine iff_of_false ?_ nofun
      rintro ⟨-, hmode, hreg⟩
      exact hlong.elim hmode hreg
    | _ => simp [Refuses, Fault.kind, ← and_assoc, himmediate, hneeded]
  · rw [not_or] at hlong
    rw [Fault.worded_eq_self (by simpa [Fault.decimals] using hlong)]
    cases kind with
    | unsupportedMode => exact ⟨fun _ => rfl, fun _ => ⟨h, hlong⟩⟩
    | unwritable => simp [Refuses, Fault.kind, ← and_assoc, himmediate, hlong]
    | _ => simp [Refuses, Fault.kind, ← and_assoc, himmediate, hneeded]

end Cursor

/-- The kinds of faults that reading a field has. -/
theorem Field.exists_fault_iff {field : Field} {key : String} {cursor : Cursor}
    {kind : Fault.Kind} :
    (∃ fault, (field.fetch key cursor).1 = .error fault ∧ fault.kind = kind) ↔
      kind = .bufferTooShort ∧ ¬ cursor.memory.Holds cursor.position field.extent ∨
      kind = .malformedOperand ∧ field = .immediate .byte ∧
        ∃ raw, cursor.memory.load .uint16 cursor.position = .ok raw ∧ bits raw 8 8 ≠ 0 := by
  simp only [fetch_eq_error_iff, Memory.load_eq_error_iff, operand_eq_error_iff]
  constructor
  · rintro ⟨fault, ⟨hbytes, rfl⟩ | ⟨raw, hload, rfl, hhigh, rfl⟩, rfl⟩
    · exact .inl ⟨rfl, hbytes⟩
    · exact .inr ⟨rfl, rfl, raw, hload, hhigh⟩
  · rintro (⟨rfl, hbytes⟩ | ⟨rfl, rfl, raw, hload, hhigh⟩)
    · exact ⟨_, .inl ⟨hbytes, rfl⟩, rfl⟩
    · exact ⟨_, .inr ⟨raw, hload, rfl, hhigh, rfl⟩, rfl⟩

namespace Fetch

/-- A step that fails has one fault, of one kind. -/
theorem exists_fail_fault_iff {α : Type} {other : Fault} {cursor : Cursor} {kind : Fault.Kind} :
    (∃ fault, ((fail other : Fetch α).worded cursor).1 = .error fault ∧ fault.kind = kind) ↔
      kind = other.worded.kind := by
  constructor
  · rintro ⟨fault, hfault, rfl⟩
    cases hfault
    rfl
  · rintro rfl
    exact ⟨other.worded, rfl, rfl⟩

/-- A step that fails without reading leaves the cursor, whether its fault can be worded or not. -/
theorem idx_of_fail {other : Fault} (cursor : Cursor) (h : other.kind ≠ .malformedOperand) :
    cursor = { cursor with
      idx := if other.worded.kind = .malformedOperand then cursor.idx + 2 else cursor.idx } := by
  have hworded : other.worded.kind ≠ .malformedOperand := by
    rcases other.worded_eq_self_or_unwritable with hsame | hother
    · rw [hsame]
      exact h
    · rw [hother]
      nofun
  rw [if_neg hworded]

variable (cursor : Cursor) (mode reg : Int) (code : Option Int) (key : String)

/-- A request fails with faults of the kinds that the cursor refuses it for, and no others. -/
theorem exists_address_fault_iff (kind : Fault.Kind) :
    (∃ fault, (address mode reg code key cursor).1 = .error fault ∧ fault.kind = kind) ↔
      cursor.Refuses mode reg code kind := by
  have hslot := Slot.resolves_ofMode mode reg code key
  unfold address
  generalize Slot.ofMode mode reg code key = slot at hslot
  cases hslot with
  | direct address hmode hreg hext hlow =>
    refine iff_of_false ?_ (Cursor.not_refuses_of_low hlow kind)
    rintro ⟨fault, ⟨⟩, -⟩
  | extended field hfield =>
    rw [Cursor.refuses_iff_of_ofMode hfield, Slot.fetch, worded_eq_self (field.faultsIn_fetch key)]
    exact Field.exists_fault_iff
  | sizeless hmode hreg hcode =>
    subst hmode hreg hcode
    rw [Cursor.refuses_iff_of_sizeless]
    exact exists_fail_fault_iff
  | missized n hmode hreg hcode hrange =>
    subst hmode hreg hcode
    rw [Cursor.refuses_iff_of_missized hrange]
    exact exists_fail_fault_iff
  | unsupported h =>
    rw [Cursor.refuses_iff_of_unsupported h]
    exact exists_fail_fault_iff

/-- **Every request for an effective address is accounted for.** Whatever the mode, the register
number, the size code, the key and the cursor are, an address that is found has that mode and that
register, the cursor moves by its bytes, and the layout gains one entry for them if there are any.
Otherwise the layout stays as it is, and so does the cursor unless a byte was read that is none. The
faults are of six kinds, each of which comes up exactly in its own circumstances: five tell what is
wrong with the request, and the sixth takes the place of two of them when a number that the message
would show has too many digits. -/
theorem address_outcome :
    (match address mode reg code key cursor with
    | (.ok operand, after) =>
      ∃ address : EffectiveAddress, operand = .ea address ∧
        cursor.Resolved mode reg key address after
    | (.error fault, after) =>
      after = { cursor with
        idx := if fault.kind = .malformedOperand then cursor.idx + 2 else cursor.idx }) ∧
    ∀ kind, (∃ fault, (address mode reg code key cursor).1 = .error fault ∧ fault.kind = kind) ↔
      cursor.Refuses mode reg code kind := by
  refine ⟨?_, exists_address_fault_iff cursor mode reg code key⟩
  have hslot := Slot.resolves_ofMode mode reg code key
  unfold address
  generalize Slot.ofMode mode reg code key = slot at hslot
  cases hslot with
  | direct address hmode hreg hext hlow =>
    exact ⟨address, rfl, Cursor.resolved_direct hmode hreg hext⟩
  | sizeless hmode hreg hcode => rfl
  | missized n hmode hreg hcode hrange => exact idx_of_fail cursor nofun
  | unsupported h => exact idx_of_fail cursor nofun
  | extended field hfield =>
    rw [Slot.fetch, worded_eq_self (field.faultsIn_fetch key)]
    cases hload : cursor.memory.load field.access cursor.position with
    | error fault =>
      obtain ⟨-, rfl⟩ := Memory.load_eq_error_iff.mp hload
      rw [Field.fetch_of_unreadable hload]
      rfl
    | ok raw =>
      cases hraw : field.operand raw with
      | error fault =>
        obtain ⟨rfl, -, rfl⟩ := Field.operand_eq_error_iff.mp hraw
        rw [Field.fetch_of_refused hload hraw]
        rfl
      | ok operand =>
        obtain ⟨address, rfl, hmode, hreg, hext⟩ := Field.address_of_operand hfield hraw
        rw [Field.fetch_eq_ok_iff.mpr ⟨⟨raw, hload, hraw⟩, rfl⟩]
        exact ⟨address, rfl, Cursor.resolved_extended hmode hreg hext⟩

/-- A mode that names nothing and a size code that names no size are shown in the message of the
fault. If they have too many digits, the fault is of neither kind. -/
theorem address_of_long_numbers :
    let long : Int := 10 ^ Numeral.maxDecimalDigits
    let cursor := Cursor.start ⟨#[], 0, .big⟩ 0
    (Slot.Unsupported long 0 ∧
      (¬ ∃ fault, (address long 0 none "ea" cursor).1 = .error fault ∧
        fault.kind = .unsupportedMode) ∧
      ∃ fault, (address long 0 none "ea" cursor).1 = .error fault ∧ fault.kind = .unwritable) ∧
    ¬ (0 ≤ long ∧ long ≤ 2) ∧
      (¬ ∃ fault, (address 7 4 (some long) "ea" cursor).1 = .error fault ∧
        fault.kind = .unsupportedImmediateSize) ∧
      ∃ fault, (address 7 4 (some long) "ea" cursor).1 = .error fault ∧
        fault.kind = .unwritable := by
  intro long cursor
  have hlong : Numeral.TooLong long := Numeral.tooLong_pow_ten (Nat.le_refl _)
  have hten := Numeral.ten_le_natAbs_of_tooLong hlong
  have hunsupported : Slot.Unsupported long 0 := by
    left
    omega
  have hrange : ¬ (0 ≤ long ∧ long ≤ 2) := by omega
  simp only [exists_address_fault_iff]
  refine ⟨⟨hunsupported, ?_, .inl ⟨hunsupported, .inl hlong⟩⟩, hrange, ?_,
    .inr ⟨rfl, rfl, long, rfl, hrange, hlong⟩⟩
  · rintro ⟨-, hshort, -⟩
    exact hshort hlong
  · rintro ⟨-, -, n, hn, -, hshort⟩
    exact hshort (Option.some.inj hn ▸ hlong)

end Fetch

end Disasm68k
